/-
Key release discipline: when each press the endpoint accepts is followed
by its all-zero release, and when the keyboard is left at rest.

# Where the discipline comes from

Nothing remembers a pending release across calls of `usb_hid_drain`, so
a press is released only if the drain reaches its second report: the
endpoint has to be free again when the wait loop ends, and has to accept
the release. `releaseGuard` is that condition, on the environment's
answers; `ReleaseInv` says that under it every state outside the held
phase (`Pc.held`) has an all-zero last report.

A wait that ends with the endpoint still busy (100 ms passed, or the
deadline wrapped below the clock) skips the release: `stuckRun`.
-/
import Mathlib.Data.List.Chain
import PicoBridge.Usb.Drain

namespace PicoBridge

-- ========================================================= the discipline

/-- The report an event says the endpoint accepted. -/
def UsbEvent.accepted? : UsbEvent → Option HidReport
  | .report r true => some r
  | _ => none

/-- The reports the endpoint accepted, in order. -/
def acceptedReports (es : List UsbEvent) : List HidReport :=
  es.filterMap UsbEvent.accepted?

@[simp] theorem acceptedReports_nil : acceptedReports [] = [] := rfl

@[simp] theorem acceptedReports_append (es fs : List UsbEvent) :
    acceptedReports (es ++ fs) = acceptedReports es ++ acceptedReports fs :=
  List.filterMap_append

@[simp] theorem acceptedReports_core (ls : List CoreLabel) :
    acceptedReports (ls.map .core) = [] := by
  simp [acceptedReports, List.filterMap_map, Function.comp_def, UsbEvent.accepted?]

@[simp] theorem acceptedReports_accept (r : HidReport) (es : List UsbEvent) :
    acceptedReports (.report r true :: es) = r :: acceptedReports es := rfl

@[simp] theorem acceptedReports_refuse (r : HidReport) (es : List UsbEvent) :
    acceptedReports (.report r false :: es) = acceptedReports es := rfl

@[simp] theorem acceptedReports_label (l : CoreLabel) (es : List UsbEvent) :
    acceptedReports (.core l :: es) = acceptedReports es := rfl

@[simp] theorem acceptedReports_completed (es : List UsbEvent) :
    acceptedReports (.completed :: es) = acceptedReports es := rfl

@[simp] theorem acceptedReports_stallAbort (es : List UsbEvent) :
    acceptedReports (.stallAbort :: es) = acceptedReports es := rfl

/-- The discipline on the accepted reports: after a report that presses
something comes the all-zero one, and a core that is not executing has
left the keyboard at rest. -/
structure ReleaseDiscipline (m : UsbMain) (accepted : List HidReport) : Prop where
  followed : accepted.IsChain fun r r' => r ≠ released → r' = released
  atRest : m.core.state ≠ .executing → ∀ r ∈ accepted.getLast?, r = released

-- ========================================================== the guard

/-- No callback of a `tud_task` unmounts or suspends the device. -/
def UsbInput.mounted : UsbInput → Prop
  | .tudTask cbs _ => ∀ cb ∈ cbs, cb ≠ .umount ∧ cb ≠ .suspend
  | _ => True

instance : DecidablePred UsbInput.mounted
  | .tudTask cbs _ => inferInstanceAs (Decidable (∀ cb ∈ cbs, _))
  | .ready _ => .isTrue trivial
  | .report _ => .isTrue trivial
  | .asyncPoll _ => .isTrue trivial

/-- Between an accepted press and its release. -/
def Pc.held : Pc → Prop
  | .wait _ => True
  | .task _ => True
  | .recheck => True
  | .release => True
  | .top | .loop | .press _ | .poll => False

instance : DecidablePred Pc.held
  | .wait _ => .isTrue trivial
  | .task _ => .isTrue trivial
  | .recheck => .isTrue trivial
  | .release => .isTrue trivial
  | .top => .isFalse id
  | .loop => .isFalse id
  | .press _ => .isFalse id
  | .poll => .isFalse id

/-- The environment lets every press be released: the device stays
mounted until it is, the endpoint is free when the wait after it ends,
and it accepts the release. -/
def releaseGuard (m : UsbMain) (i : UsbInput) : Prop :=
  (m.pc.held → i.mounted) ∧ (m.pc = .recheck → i ≠ .ready false) ∧
    (m.pc = .release → i ≠ .report false)

instance (m : UsbMain) (i : UsbInput) : Decidable (releaseGuard m i) :=
  inferInstanceAs (Decidable (_ ∧ _ ∧ _))

/-- A stroke is in hand: about to be pressed, or held. -/
def Pc.inHand (pc : Pc) : Prop :=
  pc.held ∨ ∃ stroke, pc = .press stroke

/-- What every guarded run keeps. -/
structure ReleaseInv (m : UsbMain) (es : List UsbEvent) : Prop where
  followed : (acceptedReports es).IsChain fun r r' => r ≠ released → r' = released
  typing : m.pc.inHand → m.core.state = .executing
  atRest : ¬m.pc.held → ∀ r ∈ (acceptedReports es).getLast?, r = released

theorem ReleaseInv.discipline {m : UsbMain} {es : List UsbEvent} (h : ReleaseInv m es) :
    ReleaseDiscipline m (acceptedReports es) where
  followed := h.followed
  atRest hx := h.atRest fun hheld => hx (h.typing (by
    cases hpc : m.pc <;> simp_all [Pc.held, Pc.inHand]))

-- ========================================================= its steps

/-- While mounted, `tud_task` leaves the keyboard side alone. -/
theorem tudTask_mounted {m : UsbMain} {cbs : List UsbCallback} {nowMs : UInt32}
    (h : (UsbInput.tudTask cbs nowMs).mounted) : tudTask m cbs = (m, []) := by
  have hnil : cbs.flatMap UsbCallback.coreCalls = [] := by
    rw [List.flatMap_eq_nil_iff]
    intro cb hcb
    have := h cb hcb
    cases cb <;> simp_all [UsbCallback.coreCalls]
  simp [tudTask, UsbMain.callCore, hnil]

/-- Outside the held phase, with nothing new accepted and no stroke in
hand, the invariant carries over. -/
theorem ReleaseInv.rest {m m' : UsbMain} {es fs : List UsbEvent} (h : ReleaseInv m es)
    (hm : ¬m.pc.held) (hm' : ¬m'.pc.inHand) (hfs : acceptedReports fs = []) :
    ReleaseInv m' (es ++ fs) := by
  refine ⟨?_, fun hh => absurd hh hm', fun _ => ?_⟩
  · simpa [hfs] using h.followed
  · simpa [hfs] using h.atRest hm

/-- Returning from the drain accepts nothing and goes to the poll. -/
theorem drainReturn_quiet (m : UsbMain) :
    acceptedReports (drainReturn m).2 = [] ∧ (drainReturn m).1.pc = .poll :=
  ⟨acceptedReports_core _, rfl⟩

theorem mainLoop_quiet (m : UsbMain) (nowMs : UInt32) :
    acceptedReports (mainLoop m nowMs).2 = [] ∧ ¬(mainLoop m nowMs).1.pc.inHand := by
  rcases mainLoop_cases m nowMs with ⟨-, h⟩ | ⟨-, h⟩ | h
  · rw [h]
    simp [drainReturn_quiet, Pc.inHand, Pc.held, UsbMain.callCore]
  · rw [h]
    simp [Pc.inHand, Pc.held]
  · rw [h]
    simp [tickAndPoll, UsbMain.callCore, Pc.inHand, Pc.held]

/-- One guarded step keeps the invariant. -/
theorem releaseInv_step (m : UsbMain) (es : List UsbEvent) (i : UsbInput)
    (h : ReleaseInv m es) (hg : releaseGuard m i) :
    ReleaseInv (usbStep m i).1 (es ++ (usbStep m i).2) := by
  obtain ⟨hmount, hfree, haccept⟩ := hg
  generalize hr : usbStep m i = r
  have hcase := usbStep_cases m i
  rw [hr] at hcase
  cases hcase with
  | skip => simpa using h
  | top hpc =>
      -- a callback may abort the core here: no key is down
      have hq := mainLoop_quiet (tudTask m ‹_›).1 ‹UInt32›
      refine h.rest (by simp [hpc, Pc.held]) hq.2 ?_
      rw [acceptedReports_append, hq.1, List.append_nil]
      exact acceptedReports_core _
  | next hpc =>
      have hm : ¬m.pc.held := by simp [hpc, Pc.held]
      rcases drainNext_cases m with ⟨-, hd⟩ | ⟨-, hd⟩ | ⟨-, -, hd⟩ | ⟨hx, -, hd⟩
      · rw [hd]
        exact h.rest hm (by simp [drainReturn_quiet, Pc.inHand, Pc.held])
          (by simp [drainReturn_quiet])
      · rw [hd]
        exact h.rest hm (by simp [drainReturn_quiet, Pc.inHand, Pc.held])
          (by simp [drainReturn_quiet])
      · rw [hd]
        exact h.rest hm (by simp [drainReturn_quiet, Pc.inHand, Pc.held])
          (by simp [drainReturn_quiet])
      · rw [hd]
        refine ⟨?_, fun _ => hx, fun _ => ?_⟩
        · simpa using h.followed
        · simpa using h.atRest hm
  | busy hpc =>
      exact h.rest (by simp [hpc, Pc.held]) (by simp [drainReturn_quiet, Pc.inHand, Pc.held])
        (drainReturn_quiet m).1
  | pressed hpc =>
      refine ⟨?_, fun _ => h.typing (by simp [hpc, Pc.inHand]), fun hh => absurd trivial hh⟩
      have hrest := h.atRest (by simp [hpc, Pc.held])
      rw [acceptedReports_append]
      refine h.followed.append (.singleton _) ?_
      intro r hr r' hr' hne
      exact absurd (hrest r hr) hne
  | refused hpc =>
      exact h.rest (by simp [hpc, Pc.held]) (by simp [drainReturn_quiet, Pc.inHand, Pc.held])
        (by simp [drainReturn_quiet])
  | waited hpc =>
      refine ⟨?_, fun _ => h.typing (by simp [hpc, Pc.inHand, Pc.held]), fun hh => ?_⟩
      · simpa using h.followed
      · split at hh <;> exact absurd trivial hh
  | task hpc =>
      rw [tudTask_mounted (hmount (by simp [hpc, Pc.held]))]
      refine ⟨?_, fun _ => h.typing (by simp [hpc, Pc.inHand, Pc.held]), fun hh => ?_⟩
      · simpa using h.followed
      · exact absurd trivial hh
  | free hpc =>
      refine ⟨?_, fun _ => h.typing (by simp [hpc, Pc.inHand, Pc.held]), fun hh => ?_⟩
      · simpa using h.followed
      · exact absurd trivial hh
  | gaveUp hpc => exact absurd rfl (hfree hpc)
  | released hpc =>
      refine ⟨?_, fun hh => absurd hh (by simp [Pc.inHand, Pc.held]), fun _ => by simp⟩
      rw [acceptedReports_append]
      refine h.followed.append (.singleton _) ?_
      intro r _ r' hr' _
      simpa using hr'.symm
  | unreleased hpc => exact absurd rfl (haccept hpc)
  | polled hpc =>
      exact h.rest (by simp [hpc, Pc.held]) (by simp [Pc.inHand, Pc.held])
        (acceptedReports_core _)

-- ============================================================== the runs

/-- In every run of the main loop whose environment meets the guard, from
power-on and for every order of jobs, clocks and answers: the next
report accepted after a press is its release, and a core that is not
executing has left the keyboard at rest. -/
theorem usbRun_releases_keys (is : List UsbInput)
    (hg : usbMachine.StepsMeet releaseGuard usbMainInit is) :
    ReleaseDiscipline (usbMachine.final usbMainInit is)
      (acceptedReports (usbMachine.trace usbMainInit is)) := by
  have hinit : ReleaseInv usbMainInit [] :=
    ⟨.nil, fun h => absurd h (by simp [usbMainInit, Pc.inHand, Pc.held]), by simp⟩
  have h := usbMachine.run_inv releaseInv_step is usbMainInit [] hinit hg
  exact ReleaseInv.discipline (by simpa using h)

/-- The inputs up to a confirmed one-character job "a". -/
def confirmedA : List UsbInput :=
  [.tudTask [.mount] 1000, .ready true,
    .asyncPoll [.stage 7 1 bridgeLayoutUs bridgeModePassword 0 [0x61] 1, .confirm 7 1]]

/-- The job "a" on an endpoint that completes its transfers. -/
def releasedRun : List UsbInput :=
  confirmedA ++
    [.tudTask [] 1010, .ready true, .report true,
      .ready false, .tudTask [] 1018, .ready true, .ready true, .report true, .ready false,
      .asyncPoll [], .tudTask [] 1026, .ready true]

theorem releasedRun_releases_keys :
    (usbMachine.final usbMainInit releasedRun).core.state = .completed
      ∧ acceptedReports (usbMachine.trace usbMainInit releasedRun)
        = [(⟨0, 4⟩ : BridgeStroke).press, released]
      ∧ ReleaseDiscipline (usbMachine.final usbMainInit releasedRun)
          (acceptedReports (usbMachine.trace usbMainInit releasedRun)) :=
  ⟨by decide +kernel, by decide +kernel,
    usbRun_releases_keys releasedRun (by decide +kernel)⟩

-- ======================================================= a held key

/-- What is known of the endpoint: it changes only inside `tud_task`. -/
inductive Endpoint
  | unknown
  | free
  | busy
  deriving DecidableEq

/-- The endpoint after an answer, if it can give that answer: readiness
is being free, and a report is accepted only when free, which makes it
busy. -/
def Endpoint.answer : Endpoint → UsbInput → Option Endpoint
  | _, .tudTask .. => some .unknown
  | e, .asyncPoll _ => some e
  | .free, .ready false => none
  | _, .ready false => some .busy
  | .busy, .ready true => none
  | _, .ready true => some .free
  | .busy, .report true => none
  | _, .report true => some .busy
  | e, .report false => some e

/-- Some endpoint can give all the answers of a run. -/
def endpointCan (is : List UsbInput) : Prop :=
  (is.foldlM Endpoint.answer .unknown).isSome

instance (is : List UsbInput) : Decidable (endpointCan is) :=
  inferInstanceAs (Decidable (_ = true))

/-- The job "a" on an endpoint that stays busy for 100 ms after the press
and is free again at the next drain. -/
def stuckRun : List UsbInput :=
  confirmedA ++
    [.tudTask [] 1010, .ready true, .report true,
      .ready false, .tudTask [] 1110, .ready false, .ready false,
      .asyncPoll [], .tudTask [] 1118, .ready true]

/-- The run is one a mounted device can see, its job completes, and the
last report the endpoint accepted holds the key down. -/
theorem stuckRun_holds_key :
    endpointCan stuckRun ∧ (∀ i ∈ stuckRun, i.mounted)
      ∧ (usbMachine.final usbMainInit stuckRun).core.state = .completed
      ∧ acceptedReports (usbMachine.trace usbMainInit stuckRun)
        = [(⟨0, 4⟩ : BridgeStroke).press]
      ∧ ¬ReleaseDiscipline (usbMachine.final usbMainInit stuckRun)
          (acceptedReports (usbMachine.trace usbMainInit stuckRun)) := by
  have hstate : (usbMachine.final usbMainInit stuckRun).core.state = .completed := by
    decide +kernel
  have hlast : acceptedReports (usbMachine.trace usbMainInit stuckRun)
      = [(⟨0, 4⟩ : BridgeStroke).press] := by
    decide +kernel
  refine ⟨by decide +kernel, by decide +kernel, hstate, hlast, fun h => ?_⟩
  rw [hlast] at h
  have := h.atRest (by rw [hstate]; decide) _ rfl
  revert this
  decide

end PicoBridge
