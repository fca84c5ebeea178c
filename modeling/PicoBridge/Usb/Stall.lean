/-
The stall guard of `usb_hid_drain`: what its 2000 ms measure.

# Two clocks

`clockedMachine` runs the keyboard side against a true clock in
milliseconds that never wraps: every input comes with the time that
passed since the one before, and a clock reading is the true time modulo
2^32. Any sequence of 32-bit readings is such a run. Every event comes
out with how long ago the job last made progress: its last accepted
press, or its confirmation.

# What the guard measures

Not that: it measures the episode. An episode begins with the first drain
that finds the core EXECUTING (whose reading is not 0, the code's word
for no episode) and ends with a drain that does not, or that aborts the
job; neither progress nor one job following another moves its beginning.
`Clocked.Inv` says that `exec_since_ms` holds its reading. So the guard
is right in a run exactly if no drain finds a job EXECUTING more than
2000 ms into the episode while it makes progress: `stallGuard`.

# What that is worth

Nothing else in the keyboard side ends a job before its last stroke, so
in a run where the guard is right a job whose strokes keep being accepted
is typed out (`typedOut_run`).
-/
import PicoBridge.Usb.Delivery

namespace PicoBridge

open Lib (Machine Trace)

-- ================================================= when the guard fires

/-- The state `usb_hid_drain` is called in at this step, if it is. -/
def UsbMain.drainAt (m : UsbMain) : UsbInput → Option UsbMain
  | .tudTask cbs nowMs =>
      if m.pc = .top ∧ nowMs - (tudTask m cbs).1.lastUsbDrainMs ≥ 5 then
        some { (tudTask m cbs).1 with usbNowMs := nowMs, bleNowMs := nowMs }
      else none
  | _ => none

/-- A drain is called at this step and its stall test holds. -/
def UsbMain.fires (m : UsbMain) (i : UsbInput) : Prop :=
  ∃ d ∈ m.drainAt i, d.stalled

theorem fires_top {m : UsbMain} {cbs : List UsbCallback} {nowMs : UInt32} (hpc : m.pc = .top) :
    m.fires (.tudTask cbs nowMs) ↔
      nowMs - (tudTask m cbs).1.lastUsbDrainMs ≥ 5 ∧
        { (tudTask m cbs).1 with usbNowMs := nowMs, bleNowMs := nowMs : UsbMain }.stalled := by
  simp [UsbMain.fires, UsbMain.drainAt, hpc, and_assoc]

/-- Only the head of the main loop calls the drain. -/
theorem drainAt_eq_none {m : UsbMain} {i : UsbInput}
    (h : ∀ cbs nowMs, m.pc = .top → i ≠ .tudTask cbs nowMs) : m.drainAt i = none := by
  cases i with
  | tudTask cbs nowMs =>
      have hpc : m.pc ≠ .top := fun hpc => h cbs nowMs hpc rfl
      simp [UsbMain.drainAt, hpc]
  | ready => rfl
  | report => rfl
  | asyncPoll => rfl

theorem callCore_not_abort (m : UsbMain) (calls : List CoreCall) :
    .stallAbort ∉ (m.callCore calls).2 := by
  simp [UsbMain.callCore]

theorem drainReturn_not_abort (m : UsbMain) : .stallAbort ∉ (drainReturn m).2 := by
  simp [drainReturn, tickAndPoll, callCore_not_abort]

theorem drainNext_not_abort (m : UsbMain) : .stallAbort ∉ (drainNext m).2 := by
  rcases drainNext_cases m with ⟨-, h⟩ | ⟨-, h⟩ | ⟨-, -, h⟩ | ⟨-, -, h⟩ <;> rw [h] <;>
    simp [drainReturn_not_abort]

/-- The main loop reports a stall abort when its gate is open and the
test holds. -/
theorem mainLoop_abort_iff (m : UsbMain) (nowMs : UInt32) :
    .stallAbort ∈ (mainLoop m nowMs).2 ↔
      nowMs - m.lastUsbDrainMs ≥ 5 ∧
        { m with usbNowMs := nowMs, bleNowMs := nowMs : UsbMain }.stalled := by
  by_cases hgate : nowMs - m.lastUsbDrainMs ≥ 5
  · by_cases hst : { m with usbNowMs := nowMs, bleNowMs := nowMs : UsbMain }.stalled
    · simp [mainLoop, drainEnter, hgate, hst]
    · simp [mainLoop, drainEnter, hgate, hst]
  · simp [mainLoop, hgate, tickAndPoll, callCore_not_abort]

/-- A step aborts for a stall exactly when the guard fires. -/
theorem usbStep_abort_iff (m : UsbMain) (i : UsbInput) :
    .stallAbort ∈ (usbStep m i).2 ↔ m.fires i := by
  constructor
  · intro h
    generalize hr : usbStep m i = r at h
    have hcase := usbStep_cases m i
    rw [hr] at hcase
    cases hcase with
    | skip => cases h
    | top hpc =>
        rcases List.mem_append.mp h with h | h
        · exact absurd h (callCore_not_abort m _)
        · exact (fires_top hpc).mpr ((mainLoop_abort_iff _ _).mp h)
    | next hpc => exact absurd h (drainNext_not_abort m)
    | busy hpc => exact absurd h (drainReturn_not_abort m)
    | pressed hpc => simp at h
    | refused hpc => exact absurd h (by simp [drainReturn_not_abort])
    | waited hpc => cases h
    | task hpc => exact absurd h (callCore_not_abort m _)
    | free hpc => cases h
    | gaveUp hpc => exact absurd h (drainReturn_not_abort m)
    | released hpc => simp at h
    | unreleased hpc => exact absurd h (by simp [drainReturn_not_abort])
    | polled hpc => exact absurd h (callCore_not_abort m _)
  · intro h
    by_cases hhead : ∃ cbs nowMs, m.pc = .top ∧ i = .tudTask cbs nowMs
    · obtain ⟨cbs, nowMs, hpc, rfl⟩ := hhead
      simp only [usbStep, hpc]
      exact List.mem_append_right _ ((mainLoop_abort_iff _ _).mpr ((fires_top hpc).mp h))
    · obtain ⟨d, hd, -⟩ := h
      rw [drainAt_eq_none fun cbs nowMs hpc hi => hhead ⟨cbs, nowMs, hpc, hi⟩] at hd
      cases hd

-- ===================================================== the timestamp

@[simp] theorem callCore_execSinceMs (m : UsbMain) (calls : List CoreCall) :
    (m.callCore calls).1.execSinceMs = m.execSinceMs := rfl

@[simp] theorem tudTask_execSinceMs (m : UsbMain) (cbs : List UsbCallback) :
    (tudTask m cbs).1.execSinceMs = m.execSinceMs := rfl

@[simp] theorem drainReturn_execSinceMs (m : UsbMain) :
    (drainReturn m).1.execSinceMs = m.execSinceMs := rfl

theorem drainNext_execSinceMs (m : UsbMain) :
    (drainNext m).1.execSinceMs = m.execSinceMs := by
  rcases drainNext_cases m with ⟨-, h⟩ | ⟨-, h⟩ | ⟨-, -, h⟩ | ⟨-, -, h⟩ <;> rw [h] <;> rfl

/-- What the drain's head makes of the timestamp: it is taken anew from
the clock when it was clear, and cleared by an abort and where there is
nothing to type. -/
theorem drainEnter_execSinceMs (m : UsbMain) :
    (drainEnter m).1.execSinceMs =
      if m.core.state = .executing ∧ ¬m.stalled then
        if m.execSinceMs = 0 then m.usbNowMs else m.execSinceMs
      else 0 := by
  unfold drainEnter
  by_cases hst : m.stalled
  · simp [hst]
  · by_cases hx : m.core.state = .executing <;> simp [hst, hx]

/-- Only a call of the drain moves the timestamp. -/
theorem usbStep_execSinceMs (m : UsbMain) (i : UsbInput) :
    (usbStep m i).1.execSinceMs = match m.drainAt i with
      | none => m.execSinceMs
      | some d => (drainEnter d).1.execSinceMs := by
  by_cases hhead : ∃ cbs nowMs, m.pc = .top ∧ i = .tudTask cbs nowMs
  · obtain ⟨cbs, nowMs, hpc, rfl⟩ := hhead
    simp only [usbStep, hpc, UsbMain.drainAt, true_and, mainLoop]
    by_cases hgate : nowMs - (tudTask m cbs).1.lastUsbDrainMs ≥ 5
    · simp only [hgate, if_true]
    · simp only [hgate, if_false]
      rfl
  · have hnone : m.drainAt i = none :=
      drainAt_eq_none fun cbs nowMs hpc hi => hhead ⟨cbs, nowMs, hpc, hi⟩
    rw [hnone]
    generalize hr : usbStep m i = r
    have hcase := usbStep_cases m i
    rw [hr] at hcase
    cases hcase with
    | top hpc => exact absurd ⟨_, _, hpc, rfl⟩ hhead
    | next hpc => exact drainNext_execSinceMs m
    | skip => rfl
    | busy hpc => rfl
    | pressed hpc => rfl
    | refused hpc => rfl
    | waited hpc => rfl
    | task hpc => rfl
    | free hpc => rfl
    | gaveUp hpc => rfl
    | released hpc => rfl
    | unreleased hpc => rfl
    | polled hpc => rfl

-- ======================================================= the true clock

/-- The keyboard side with the true clock in milliseconds, the time the
current episode began at and the time of the job's last progress. -/
structure Clocked where
  main : UsbMain
  clock : Nat
  began : Option Nat
  progress : Nat

def clockedInit : Clocked := ⟨usbMainInit, 0, none, 0⟩

/-- The input as the device sees it at a true time: clock readings are
the true time modulo 2^32. -/
def UsbInput.atClock (clock : Nat) : UsbInput → UsbInput
  | .tudTask cbs _ => .tudTask cbs (UInt32.ofNat clock)
  | i => i

/-- A drain called at a true time reads it. -/
theorem drainAt_reading {m d : UsbMain} {i : UsbInput} {clock : Nat}
    (h : m.drainAt (i.atClock clock) = some d) : d.usbNowMs = UInt32.ofNat clock := by
  cases i with
  | tudTask cbs nowMs =>
      simp only [UsbInput.atClock, UsbMain.drainAt, Option.ite_none_right_eq_some,
        Option.some.injEq] at h
      rw [← h.2]
  | ready => cases h
  | report => cases h
  | asyncPoll => cases h

/-- And the timestamp is as it was. -/
theorem drainAt_execSinceMs {m d : UsbMain} {i : UsbInput} (h : m.drainAt i = some d) :
    d.execSinceMs = m.execSinceMs := by
  cases i with
  | tudTask cbs nowMs =>
      simp only [UsbMain.drainAt, Option.ite_none_right_eq_some, Option.some.injEq] at h
      rw [← h.2]
      rfl
  | ready => cases h
  | report => cases h
  | asyncPoll => cases h

/-- A job's progress: the confirmation, and every accepted press. -/
def UsbEvent.isProgress : UsbEvent → Bool
  | .core (.approve ..) => true
  | e => e.acceptedPress?.isSome

/-- The step's call of the drain, at its true time. -/
def Clocked.drain (s : Clocked) (i : UsbInput × Nat) : Option UsbMain :=
  s.main.drainAt (i.1.atClock (s.clock + i.2))

/-- How long ago the job made progress, at a step. -/
def Clocked.idle (s : Clocked) (i : UsbInput × Nat) : Nat := s.clock + i.2 - s.progress

/-- One step against the true clock; every event comes with the age of
the job's last progress. -/
def clockedMachine : Machine Clocked (UsbInput × Nat) (UsbEvent × Nat) where
  step s i :=
    let clock := s.clock + i.2
    let r := usbStep s.main (i.1.atClock clock)
    ({ main := r.1
       clock := clock
       began := match s.drain i with
         | none => s.began
         | some d =>
             if d.core.state = .executing ∧ .stallAbort ∉ r.2 then
               s.began.or (if d.usbNowMs = 0 then none else some clock)
             else none
       progress := if r.2.any UsbEvent.isProgress then clock else s.progress },
      r.2.map (·, s.idle i))

/-- A drain finds a job to type. -/
def Clocked.findsJob (s : Clocked) (i : UsbInput × Nat) : Prop :=
  ∃ d ∈ s.drain i, d.core.state = .executing

/-- A drain finds a job to type more than 2000 ms into the episode, by the
difference of the two readings. -/
def Clocked.outlasts (s : Clocked) (i : UsbInput × Nat) : Prop :=
  s.findsJob i ∧ ∃ t ∈ s.began, UInt32.ofNat (s.clock + i.2) - UInt32.ofNat t > 2000

/-- A job that outlasts its episode's 2000 ms has made no progress for as
long. -/
def stallGuard (s : Clocked) (i : UsbInput × Nat) : Prop :=
  s.outlasts i → s.idle i > 2000

-- ================================================ the timestamp's meaning

/-- The timestamp is the reading of the episode's beginning. -/
def Clocked.Inv (s : Clocked) : Prop :=
  match s.began with
  | none => s.main.execSinceMs = 0
  | some t => s.main.execSinceMs = UInt32.ofNat t ∧ s.main.execSinceMs ≠ 0

theorem Clocked.Inv.stalled_iff {s : Clocked} {i : UsbInput × Nat} (h : s.Inv) {d : UsbMain}
    (hd : s.drain i = some d) :
    d.stalled ↔ d.core.state = .executing ∧
      ∃ t ∈ s.began, UInt32.ofNat (s.clock + i.2) - UInt32.ofNat t > 2000 := by
  unfold UsbMain.stalled
  rw [drainAt_reading hd, drainAt_execSinceMs hd]
  unfold Clocked.Inv at h
  cases hbegan : s.began with
  | none =>
      rw [hbegan] at h
      simp [h]
  | some t =>
      rw [hbegan] at h
      obtain ⟨hreading, hne⟩ := h
      simp [hne, ← hreading]

/-- The guard fires where a drain outlasts the episode. -/
theorem Clocked.Inv.fires_iff {s : Clocked} {i : UsbInput × Nat} (h : s.Inv) :
    s.main.fires (i.1.atClock (s.clock + i.2)) ↔ s.outlasts i := by
  constructor
  · intro hfires
    obtain ⟨d, hd, hstalled⟩ := hfires
    obtain ⟨hx, hold⟩ := (h.stalled_iff hd).mp hstalled
    exact ⟨⟨d, hd, hx⟩, hold⟩
  · intro houtlasts
    obtain ⟨⟨d, hd, hx⟩, hold⟩ := houtlasts
    exact ⟨d, hd, (h.stalled_iff hd).mpr ⟨hx, hold⟩⟩

theorem clockedInv_step (s : Clocked) (i : UsbInput × Nat) (h : s.Inv) :
    (clockedMachine.step s i).1.Inv := by
  have htimestamp := usbStep_execSinceMs s.main (i.1.atClock (s.clock + i.2))
  have habort := usbStep_abort_iff s.main (i.1.atClock (s.clock + i.2))
  simp only [clockedMachine, Clocked.Inv]
  cases hd : s.drain i with
  | none =>
      have hnone : s.main.drainAt (i.1.atClock (s.clock + i.2)) = none := hd
      rw [hnone] at htimestamp
      rw [htimestamp]
      exact h
  | some d =>
      have hsome : s.main.drainAt (i.1.atClock (s.clock + i.2)) = some d := hd
      have hfires : s.main.fires (i.1.atClock (s.clock + i.2)) ↔ d.stalled := by
        simp [UsbMain.fires, hsome]
      rw [hsome] at htimestamp
      dsimp only at htimestamp
      simp only [htimestamp, drainEnter_execSinceMs, habort, hfires, drainAt_execSinceMs hd,
        drainAt_reading hd]
      by_cases hgoes : d.core.state = .executing ∧ ¬d.stalled
      · simp only [hgoes, not_false_eq_true, and_self, if_true]
        unfold Clocked.Inv at h
        cases hbegan : s.began with
        | none =>
            rw [hbegan] at h
            have hclear : s.main.execSinceMs = 0 := h
            simp only [hclear, if_true, Option.none_or]
            by_cases hzero : UInt32.ofNat (s.clock + i.2) = 0
            · rw [if_pos hzero]
              exact hzero
            · rw [if_neg hzero]
              exact ⟨rfl, hzero⟩
        | some t =>
            rw [hbegan] at h
            obtain ⟨hreading, hne⟩ := h
            simp only [hne, if_false, Option.some_or]
            exact ⟨hreading, hne⟩
      · simp only [hgoes, if_false]

/-- One step's aborts are of stalled jobs exactly when the guard is right
at it. -/
theorem stallGuard_step (s : Clocked) (i : UsbInput × Nat) (hs : s.Inv) :
    (∀ o ∈ (clockedMachine.step s i).2, o.1 = .stallAbort → o.2 > 2000) ↔ stallGuard s i := by
  unfold stallGuard
  rw [← hs.fires_iff, ← usbStep_abort_iff]
  constructor
  · intro h habort
    exact h (.stallAbort, s.idle i) (List.mem_map_of_mem habort) rfl
  · intro h o ho hstall
    obtain ⟨e, he, rfl⟩ := List.mem_map.mp ho
    rw [show e = .stallAbort from hstall] at he
    exact h he

-- =================================================== a job left to itself

/-- A call that leaves the core's job as it is. -/
def CoreCall.leaves (core : BridgeCore) : CoreCall → Prop
  | .cancel owner id => ¬(owner = core.owner ∧ id = core.id)
  | .next .. | .abort => False
  | _ => True

/-- What a job that types is left as does nothing. -/
theorem call_leaves {core : BridgeCore} (hx : core.state = .executing) {call : CoreCall}
    (h : call.leaves core) : coreMachine.step core (false, call) = (core, []) := by
  have hlive : core.live := .inr hx
  have hnot : core.state ≠ .staged := by simp [hx]
  simp only [coreMachine, coreCall, Bool.false_eq_true, if_false]
  cases call with
  | stage owner id layout mode flags utf8 length nowMs ttlMs =>
      simp only [coreOp]
      rcases bridgeCoreStage_cases core owner id layout mode flags utf8 length nowMs ttlMs with
        ⟨-, hr⟩ | ⟨hidle, -⟩ | ⟨hidle, -⟩
      · rw [hr]
        rfl
      · exact absurd hlive hidle
      · exact absurd hlive hidle
  | confirm owner id nowMs =>
      simp only [coreOp]
      rcases bridgeCoreConfirm_cases core owner id nowMs with ⟨st, hst, hr⟩ | ⟨hs, -⟩ | ⟨hs, -⟩
      · rw [hr]
        rcases hst with rfl | rfl | rfl <;> rfl
      · exact absurd hs hnot
      · exact absurd hs hnot
  | tick nowMs =>
      simp only [coreOp]
      rcases bridgeCoreTick_cases core nowMs with ⟨hs, -⟩ | ⟨-, hr⟩
      · exact absurd hs hnot
      · rw [hr]
        rfl
  | cancel owner id =>
      simp only [coreOp]
      rcases bridgeCoreCancel_cases core owner id with ⟨-, howner, hid, -⟩ | ⟨-, st, hst, hr⟩
      · exact absurd ⟨howner, hid⟩ h
      · rw [hr]
        rcases hst with rfl | rfl | rfl <;> rfl
  | next => exact h.elim
  | abort => exact h.elim

theorem callCore_leaves {m : UsbMain} (hx : m.core.state = .executing) {calls : List CoreCall}
    (h : ∀ c ∈ calls, c.leaves m.core) : m.callCore calls = (m, []) := by
  have hcore : coreMachine.final m.core (calls.map (false, ·)) = m.core ∧
      coreMachine.trace m.core (calls.map (false, ·)) = [] := by
    induction calls with
    | nil => exact ⟨rfl, rfl⟩
    | cons c calls ih =>
        obtain ⟨hfinal, htrace⟩ := ih fun c hc => h c (List.mem_cons_of_mem _ hc)
        have hstep := call_leaves hx (h c List.mem_cons_self)
        rw [List.map_cons, Machine.final_cons, Machine.trace_cons, hstep]
        exact ⟨hfinal, htrace⟩
  simp [UsbMain.callCore, hcore]

/-- Nor does the expiry tick. -/
theorem tickAndPoll_executing {m : UsbMain} (hx : m.core.state = .executing) :
    tickAndPoll m = ({ m with pc := .poll }, []) := by
  have htick : m.callCore [.tick m.usbNowMs] = (m, []) :=
    callCore_leaves hx (by simp [CoreCall.leaves])
  simp [tickAndPoll, htick]

theorem drainReturn_executing {m : UsbMain} (hx : m.core.state = .executing) :
    drainReturn m = ({ m with lastUsbDrainMs := m.usbNowMs, pc := .poll }, []) :=
  tickAndPoll_executing (m := { m with lastUsbDrainMs := m.usbNowMs }) hx

/-- The environment leaves the job to its drains: the device stays
mounted, nobody cancels the job, and no press of it is refused. -/
def LeavesJob (m : UsbMain) : UsbInput → Prop
  | .tudTask cbs nowMs => (UsbInput.tudTask cbs nowMs).mounted
  | .asyncPoll calls => .cancel m.core.owner m.core.id ∉ calls
  | .report accepted => accepted = false → ∀ stroke, m.pc ≠ .press stroke
  | .ready _ => True

instance : DecidablePred fun pc : Pc => ∀ stroke, pc ≠ .press stroke
  | .press stroke => .isFalse fun h => h stroke rfl
  | .top => .isTrue fun _ h => Pc.noConfusion h
  | .loop => .isTrue fun _ h => Pc.noConfusion h
  | .wait _ => .isTrue fun _ h => Pc.noConfusion h
  | .task _ => .isTrue fun _ h => Pc.noConfusion h
  | .recheck => .isTrue fun _ h => Pc.noConfusion h
  | .release => .isTrue fun _ h => Pc.noConfusion h
  | .poll => .isTrue fun _ h => Pc.noConfusion h

instance (m : UsbMain) : DecidablePred (LeavesJob m)
  | .tudTask cbs nowMs => inferInstanceAs (Decidable (UsbInput.tudTask cbs nowMs).mounted)
  | .asyncPoll _ => inferInstanceAs (Decidable (_ ∉ _))
  | .report _ => inferInstanceAs (Decidable (_ = _ → ∀ stroke, m.pc ≠ .press stroke))
  | .ready _ => .isTrue trivial

theorem leavesJob_atClock {m : UsbMain} {i : UsbInput} {clock : Nat} (h : LeavesJob m i) :
    LeavesJob m (i.atClock clock) := by
  cases i with
  | tudTask => exact h
  | _ => exact h

/-- No event of a job that goes on: a new one, or a press refused. -/
def UsbEvent.goesOn : UsbEvent → Prop
  | .core (.offer _) => False
  | .report r false => r = released
  | _ => True

/-- What a job that types and is left to its drains does in a step: it
goes on, or it is complete, unless the step is a stall abort. -/
theorem usbStep_goesOn {m : UsbMain} {i : UsbInput} (hx : m.core.state = .executing)
    (hi : LeavesJob m i) (hstall : .stallAbort ∉ (usbStep m i).2) :
    ((usbStep m i).1.core.state = .executing ∧ ∀ e ∈ (usbStep m i).2, e.goesOn) ∨
      ∃ later, (usbStep m i).2 = .completed :: later := by
  generalize hr : usbStep m i = r at hstall
  have hcase := usbStep_cases m i
  rw [hr] at hcase
  cases hcase with
  | skip => exact .inl ⟨hx, by simp⟩
  | @top cbs nowMs hpc =>
      have hmounted : (UsbInput.tudTask cbs nowMs).mounted := hi
      have hsame : tudTask m cbs = (m, []) := tudTask_mounted hmounted
      rw [hsame] at hstall ⊢
      rcases mainLoop_cases m nowMs with ⟨-, h⟩ | ⟨-, h⟩ | h
      · rw [h] at hstall
        exact absurd (by simp) hstall
      · rw [h]
        exact .inl ⟨hx, by simp⟩
      · rw [h, tickAndPoll_executing (by exact hx)]
        exact .inl ⟨hx, by simp⟩
  | next hpc =>
      rcases drainNext_cases m with ⟨hs, -⟩ | ⟨hno, -⟩ | ⟨-, -, h⟩ | ⟨-, -, h⟩
      · rw [hx] at hs
        cases hs
      · exact absurd hx hno
      · rw [h]
        exact .inr ⟨_, rfl⟩
      · rw [h]
        exact .inl ⟨hx, by simp [UsbEvent.goesOn]⟩
  | busy hpc =>
      rw [drainReturn_executing hx]
      exact .inl ⟨hx, by simp⟩
  | pressed hpc => exact .inl ⟨hx, by simp [UsbEvent.goesOn]⟩
  | refused hpc => exact absurd hpc (hi rfl _)
  | waited hpc => exact .inl ⟨hx, by simp⟩
  | @task deadline cbs nowMs hpc =>
      have hmounted : (UsbInput.tudTask cbs nowMs).mounted := hi
      have hsame : tudTask m cbs = (m, []) := tudTask_mounted hmounted
      rw [hsame]
      exact .inl ⟨hx, by simp⟩
  | free hpc => exact .inl ⟨hx, by simp⟩
  | gaveUp hpc =>
      rw [drainReturn_executing hx]
      exact .inl ⟨hx, by simp⟩
  | released hpc => exact .inl ⟨hx, by simp [UsbEvent.goesOn]⟩
  | unreleased hpc =>
      rw [drainReturn_executing hx]
      exact .inl ⟨hx, by simp [UsbEvent.goesOn]⟩
  | polled hpc =>
      have hleaves : ∀ c ∈ (‹List TransportCall›).map (TransportCall.coreCall m.bleNowMs),
          c.leaves m.core := by
        intro c hc
        obtain ⟨call, hcall, rfl⟩ := List.mem_map.mp hc
        cases call with
        | cancel owner id =>
            simp only [TransportCall.coreCall, CoreCall.leaves, not_and]
            intro howner hid
            subst howner hid
            exact hi hcall
        | _ => trivial
      rw [callCore_leaves hx hleaves]
      exact .inl ⟨hx, by simp⟩

-- ====================================================== typed to the end

/-- The job makes progress: it is left to its drains, and each that finds
it finds its last progress at most 2000 ms old. -/
def keepsTyping (s : Clocked) (i : UsbInput × Nat) : Prop :=
  LeavesJob s.main i.1 ∧ (s.findsJob i → s.idle i ≤ 2000)

instance (s : Clocked) (i : UsbInput × Nat) : Decidable (s.findsJob i) :=
  inferInstanceAs (Decidable (∃ d ∈ s.drain i, d.core.state = .executing))

instance (s : Clocked) (i : UsbInput × Nat) : Decidable (stallGuard s i) :=
  inferInstanceAs (Decidable (s.findsJob i ∧ (∃ t ∈ s.began,
    UInt32.ofNat (s.clock + i.2) - UInt32.ofNat t > 2000) → s.idle i > 2000))

instance (s : Clocked) (i : UsbInput × Nat) : Decidable (keepsTyping s i) :=
  inferInstanceAs (Decidable (LeavesJob s.main i.1 ∧ (s.findsJob i → s.idle i ≤ 2000)))

/-- The strokes the endpoint is still to be offered. -/
def UsbMain.owes (m : UsbMain) : List BridgeStroke :=
  match m.pc with
  | .press stroke => stroke :: m.core.remaining
  | _ => m.core.remaining

/-- From one state to another a job is typed out: it still types, and the
presses accepted so far and those still owed are what it owed, or it is
complete, and all that it owed was accepted. -/
def TypedOut (m : UsbMain) (es : List UsbEvent) (m' : UsbMain) : Prop :=
  (m'.core.state = .executing ∧
      acceptedPresses es ++ m'.owes.map BridgeStroke.press = m.owes.map BridgeStroke.press) ∨
    ∃ typed later, es = typed ++ .completed :: later ∧
      acceptedPresses typed = m.owes.map BridgeStroke.press

/-- The delivery of a job that types owes what the keyboard side does. -/
theorem Delivers.owed {m : UsbMain} {d : Delivery} (h : Delivers m d)
    (hx : m.core.state = .executing) : d.owed = some m.owes := by
  unfold Delivers at h
  unfold UsbMain.owes
  cases hpc : m.pc with
  | press stroke =>
      rw [hpc] at h
      obtain ⟨-, left, hcore, rfl⟩ := h
      cases (coreDelivers_executing hcore hx).1
      rfl
  | _ =>
      rw [hpc] at h
      cases (coreDelivers_executing h hx).1
      rfl

/-- Where nothing was refused, all that was offered was accepted. -/
theorem accepted_of_goesOn {es : List UsbEvent} (h : ∀ e ∈ es, e.goesOn) :
    acceptedPresses es = offeredPresses es ∧ ∀ j, .core (.offer j) ∉ es :=
  ⟨(acceptedPresses_eq_iff es).mpr fun _ hne hmem => hne (h _ hmem), fun _ hmem => h _ hmem⟩

/-- The clocked run's events are those of a run of the keyboard side. -/
theorem clocked_usb (is : List (UsbInput × Nat)) (s : Clocked) :
    ∃ js, usbMachine.final s.main js = (clockedMachine.final s is).main ∧
      usbMachine.trace s.main js = (clockedMachine.trace s is).map Prod.fst := by
  rw [← List.filterMap_eq_map]
  apply clockedMachine.projects usbMachine (f := Clocked.main)
  intro s i
  refine ⟨[i.1.atClock (s.clock + i.2)], rfl, ?_⟩
  simp [clockedMachine, usbMachine, Function.comp_def]

/-- A job that goes on through a run is in it at the end, or was completed
before. -/
theorem goesOn_run {is : List (UsbInput × Nat)} : ∀ {s : Clocked}, s.Inv →
    s.main.core.state = .executing → clockedMachine.StepsMeet stallGuard s is →
    clockedMachine.StepsMeet keepsTyping s is →
    let es := (clockedMachine.trace s is).map Prod.fst
    ((clockedMachine.final s is).main.core.state = .executing ∧ ∀ e ∈ es, e.goesOn) ∨
      ∃ typed later, es = typed ++ .completed :: later ∧ ∀ e ∈ typed, e.goesOn := by
  induction is with
  | nil => exact fun _ hx _ _ => .inl ⟨hx, by simp⟩
  | cons i is ih =>
      intro s hinv hx hguard hkeeps
      obtain ⟨hright, hguard⟩ := hguard
      obtain ⟨⟨hleaves, hrecent⟩, hkeeps⟩ := hkeeps
      -- a drain that outlasts the episode would find no recent progress
      have hstall : .stallAbort ∉ (usbStep s.main (i.1.atClock (s.clock + i.2))).2 := by
        rw [usbStep_abort_iff, hinv.fires_iff]
        intro houtlasts
        have hold := hright houtlasts
        have hnew := hrecent houtlasts.1
        omega
      have hfst : (clockedMachine.step s i).2.map Prod.fst
          = (usbStep s.main (i.1.atClock (s.clock + i.2))).2 := by
        simp [clockedMachine, Function.comp_def]
      dsimp only
      rw [Machine.trace_cons, Machine.final_cons, List.map_append, hfst]
      rcases usbStep_goesOn hx (leavesJob_atClock hleaves) hstall with ⟨hx', hnow⟩ | ⟨later, hdone⟩
      · rcases ih (clockedInv_step s i hinv) hx' hguard hkeeps with
          ⟨hend, hrest⟩ | ⟨typed, later, hsplit, htyped⟩
        · refine .inl ⟨hend, fun e he => ?_⟩
          exact (List.mem_append.mp he).elim (hnow e) (hrest e)
        · refine .inr ⟨(usbStep s.main (i.1.atClock (s.clock + i.2))).2 ++ typed, later, ?_, ?_⟩
          · rw [hsplit, List.append_assoc]
          · intro e he
            exact (List.mem_append.mp he).elim (hnow e) (htyped e)
      · rw [hdone]
        exact .inr ⟨[], _, rfl, by simp⟩

theorem clockedInv_init : clockedInit.Inv := by
  show clockedInit.main.execSinceMs = 0
  rfl

theorem clockedInv_run (is : List (UsbInput × Nat)) :
    (clockedMachine.final clockedInit is).Inv :=
  clockedMachine.final_inv clockedInv_step clockedInv_init is

/-- Over every run in which the guard is right from a state with a job
that types: while the job makes progress it is typed out. -/
theorem typedOut_run {start rest : List (UsbInput × Nat)}
    (hx : (clockedMachine.final clockedInit start).main.core.state = .executing)
    (hguard : clockedMachine.StepsMeet stallGuard (clockedMachine.final clockedInit start) rest)
    (hkeeps : clockedMachine.StepsMeet keepsTyping (clockedMachine.final clockedInit start) rest) :
    let s := clockedMachine.final clockedInit start
    TypedOut s.main ((clockedMachine.trace s rest).map Prod.fst)
      (clockedMachine.final s rest).main := by
  obtain ⟨before, hbefore, -⟩ := clocked_usb start clockedInit
  obtain ⟨d, -, hd⟩ := usbMachine.trace_of_sim delivers_step before _ _ delivers_init
  rw [show usbMachine.final usbMainInit before = _ from hbefore] at hd
  obtain ⟨during, hfinal, htrace⟩ :=
    clocked_usb rest (clockedMachine.final clockedInit start)
  obtain ⟨d', hdelivery, hd'⟩ := usbMachine.trace_of_sim delivers_step during _ _ hd
  rw [htrace] at hdelivery
  rw [hfinal] at hd'
  rcases goesOn_run (clockedInv_run start) hx hguard hkeeps with
    ⟨hend, hgoes⟩ | ⟨typed, later, hsplit, hgoes⟩
  · obtain ⟨haccepted, hno⟩ := accepted_of_goesOn hgoes
    obtain ⟨left, howed, hpaid⟩ := offeredPresses_of_trace hdelivery (hd'.owed hend) hno
    cases (hd.owed hx).symm.trans howed
    exact .inl ⟨hend, haccepted ▸ hpaid⟩
  · obtain ⟨haccepted, hno⟩ := accepted_of_goesOn hgoes
    rw [hsplit] at hdelivery
    obtain ⟨d₁, htyped, hlast⟩ := hdelivery.split
    cases hlast with
    | cons hcompleted _ =>
        cases hcompleted
        obtain ⟨left, howed, hpaid⟩ := offeredPresses_of_trace htyped rfl hno
        cases (hd.owed hx).symm.trans howed
        refine .inr ⟨typed, later, hsplit, ?_⟩
        rw [haccepted, ← hpaid, List.map_nil, List.append_nil]

-- ============================================================== the runs

/-- Over every run against a true clock: every stall abort is of a job
without progress for more than 2000 ms if and only if the guard is right
at every drain; and where it is, from any point of the run at which a job
types, while the job makes progress it is typed to its last stroke. -/
theorem stallAborts_idle_iff (is : List (UsbInput × Nat)) :
    ((∀ o ∈ clockedMachine.trace clockedInit is, o.1 = .stallAbort → o.2 > 2000)
        ↔ clockedMachine.StepsMeet stallGuard clockedInit is)
      ∧ (clockedMachine.StepsMeet stallGuard clockedInit is →
          ∀ start rest, is = start ++ rest →
            let s := clockedMachine.final clockedInit start
            s.main.core.state = .executing → clockedMachine.StepsMeet keepsTyping s rest →
            TypedOut s.main ((clockedMachine.trace s rest).map Prod.fst)
              (clockedMachine.final s rest).main) := by
  constructor
  · exact clockedMachine.forall_trace_iff clockedInv_step stallGuard_step clockedInv_init is
  · intro hguard start rest hsplit s hx hkeeps
    rw [hsplit, Machine.stepsMeet_append] at hguard
    exact typedOut_run hx hguard.2 hkeeps

/-- The inputs up to a confirmed job of the given text, at 1000 ms. -/
def confirmedAt (text : List UInt8) : List (UsbInput × Nat) :=
  [(.tudTask [.mount] 0, 1000), (.ready true, 0),
    (.asyncPoll [.stage 7 1 bridgeLayoutUs bridgeModePassword 0 text text.length,
      .confirm 7 1], 0)]

/-- A drain a time after the last, on a free endpoint that stays busy
after the keystroke that it accepts. -/
def slowKeystroke (elapsed : Nat) : List (UsbInput × Nat) :=
  [(.tudTask [] 0, elapsed), (.ready true, 0), (.report true, 0),
    (.ready false, 0), (.tudTask [] 0, 8), (.ready true, 0), (.ready true, 0),
    (.report true, 0), (.ready false, 0), (.asyncPoll [], 0)]

/-- The job "ab" on an endpoint that takes its keys 1500 ms apart is typed
out. -/
theorem stallAborts_idle_slow :
    let start := confirmedAt [0x61, 0x62]
    let rest := slowKeystroke 10 ++ slowKeystroke 1482 ++ [(.tudTask [] 0, 10), (.ready true, 0)]
    let s := clockedMachine.final clockedInit start
    s.main.owes = [⟨0, 4⟩, ⟨0, 5⟩] ∧
      (clockedMachine.final clockedInit (start ++ rest)).main.core.state = .completed ∧
      (∀ o ∈ clockedMachine.trace clockedInit (start ++ rest), o.1 = .stallAbort → o.2 > 2000) ∧
      TypedOut s.main ((clockedMachine.trace s rest).map Prod.fst)
        (clockedMachine.final s rest).main := by
  intro start rest s
  have hguard : clockedMachine.StepsMeet stallGuard clockedInit (start ++ rest) := by
    decide +kernel
  obtain ⟨hiff, htyped⟩ := stallAborts_idle_iff (start ++ rest)
  refine ⟨by decide +kernel, by decide +kernel, hiff.mpr hguard, ?_⟩
  exact htyped hguard start rest rfl (by decide +kernel) (by decide +kernel)

/-- The job "abc" on the same endpoint: its keys are accepted 10, 1500
and, were the job not aborted, 2100 ms after its confirmation. -/
def truncatedRun : List (UsbInput × Nat) :=
  confirmedAt [0x61, 0x62, 0x63] ++ slowKeystroke 10 ++ slowKeystroke 1482 ++ [(.tudTask [] 0, 592)]

/-- The guard aborts the job 600 ms after its last accepted key: the
third is never typed. -/
theorem truncatedRun_aborts :
    endpointCan (truncatedRun.map Prod.fst) ∧ (∀ i ∈ truncatedRun, i.1.mounted)
      ∧ (.stallAbort, 600) ∈ clockedMachine.trace clockedInit truncatedRun
      ∧ (clockedMachine.final clockedInit truncatedRun).main.core.state = .cancelled
      ∧ ¬∀ o ∈ clockedMachine.trace clockedInit truncatedRun, o.1 = .stallAbort → o.2 > 2000 := by
  refine ⟨by decide +kernel, by decide +kernel, by decide +kernel, by decide +kernel, ?_⟩
  decide +kernel

end PicoBridge
