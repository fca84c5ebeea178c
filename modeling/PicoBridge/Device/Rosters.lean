/-
The RAM roster and the roster in flash, over every run of controller
commands.

`controller_setup` starts the device with what flash boots (`Agreed`),
whatever it found there. A command makes a candidate, commits it and
publishes it in RAM only where the commit returns OK. The commit checks
no more than the generation of what it reads back, which is enough: what
boots after it booted before or is the candidate, and the two never share
a generation.
-/
import PicoBridge.Device.Revoke

namespace PicoBridge

open Lib (Machine)

-- ========================================================== the commands

/-- CONTROLLER_ADD or CONTROLLER_REVOKE. -/
inductive RosterCommand
  | add
  | revoke
  deriving DecidableEq

/-- One command: its arguments, the session it is called in and how
`flash_safe_execute` fares. -/
structure RosterCall where
  command : RosterCommand
  caller : NoiseIkCtx
  env : FrameEnv
  arguments : List UInt8

/-- The device as the command finds it. -/
def RosterCall.found (c : RosterCall) (d : Device) : Device := { d with noise := c.caller }

/-- The command, run: its status and the device after it. -/
def RosterCall.run (c : RosterCall) (d : Device) : BridgeStatus × Device :=
  match c.command with
  | .add => bleHandleControllerAdd (c.found d) c.env c.arguments
  | .revoke => bleHandleControllerRevoke (c.found d) c.env c.arguments

/-- `flash_safe_execute` ran the callback completely and says so, or did
not run it. -/
def RosterCall.runsOrNot (c : RosterCall) : Prop := c.env.storeExec ≠ .failed true

instance (c : RosterCall) : Decidable c.runsOrNot := inferInstanceAs (Decidable (_ ≠ _))

/-- The roster in RAM and the one that flash boots. -/
structure Rosters where
  ram : ControllerStore
  booted : Except ControllerStoreError ControllerStore

def Device.rosters (d : Device) : Rosters := ⟨d.controllers, bootExisting d.store⟩

/-- A command in a run: its status, and the rosters before and after. -/
structure RosterReport where
  status : BridgeStatus
  before : Rosters
  after : Rosters

def rosterMachine : Machine Device RosterCall RosterReport where
  step d c := ((c.run d).2, [⟨(c.run d).1, d.rosters, (c.run d).2.rosters⟩])

-- =========================================================== one command

/-- RAM holds what flash boots. -/
def Agreed (r : Rosters) : Prop := r.booted = .ok r.ram

/-- What a command's report says: RAM and flash agree, and a command that
does not return OK left both. -/
structure RosterReport.Sound (r : RosterReport) : Prop where
  agreed : Agreed r.after
  kept : r.status ≠ .ok → r.after = r.before

/-- The end of both commands. -/
theorem commitCandidate_sound {d : Device} {env : FrameEnv}
    {candidate : Except BridgeStatus ControllerStore} (hagreed : Agreed d.rosters)
    (hexec : env.storeExec ≠ .failed true)
    (hok : ∀ store, candidate = .ok store → RosterOk store.slots) :
    let r := commitCandidate d env candidate
    RosterReport.Sound ⟨r.1, d.rosters, r.2.rosters⟩ := by
  dsimp only
  cases candidate with
  | error st => exact ⟨hagreed, fun _ => rfl⟩
  | ok store =>
      have hroster := hok store rfl
      unfold commitCandidate
      rcases hcommit : controllerStoreFlashCommit d.store store env.storeExec with
        ⟨result, flash⟩
      dsimp only
      rw [hcommit]
      cases result with
      | ok _ => exact ⟨commit_boots hroster hcommit, fun hne => absurd rfl hne⟩
      | error e =>
          have hkeeps : bootExisting flash = .ok d.controllers :=
            commit_error_keeps hagreed hroster hexec hcommit
          refine ⟨hkeeps, fun _ => ?_⟩
          show Rosters.mk d.controllers (bootExisting flash)
            = Rosters.mk d.controllers (bootExisting d.store)
          rw [hkeeps]
          exact congrArg _ hagreed.symm

/-- A command. -/
theorem rosterCall_sound {d : Device} {c : RosterCall} (hagreed : Agreed d.rosters)
    (hexec : c.runsOrNot) :
    RosterReport.Sound ⟨(c.run d).1, d.rosters, (c.run d).2.rosters⟩ := by
  have hroster : RosterOk d.controllers.slots := bootExisting_roster hagreed
  have hfound : Agreed (c.found d).rosters := hagreed
  unfold RosterCall.run
  cases c.command with
  | add =>
      refine commitCandidate_sound hfound hexec fun store hstore => ?_
      obtain ⟨-, i, hadd⟩ := addCandidate_ok hstore
      exact rosterOk_add hroster hadd
  | revoke =>
      refine commitCandidate_sound hfound hexec fun store hstore => ?_
      obtain ⟨-, -, hrevoke⟩ := revokeCandidate_ok hstore
      exact rosterOk_revoke hroster hrevoke

-- =============================================================== the runs

/-- RAM and flash rosters never diverge: from any flash that
`controller_setup` comes up with, after every command of every run the
RAM roster is the one that flash boots, and a command that does not
return OK leaves both as they were. -/
theorem rosters_never_diverge {flash : StoreFlash} {recovery initiator : Key}
    {seedExec importExec : FlashExec} {d : Device}
    (hsetup : controllerSetup flash recovery initiator seedExec importExec
      = (some d.controllers, d.store))
    {cs : List RosterCall}
    (hexec : rosterMachine.StepsMeet (fun _ c => c.runsOrNot) d cs) :
    Agreed d.rosters ∧ ∀ r ∈ rosterMachine.trace d cs, r.Sound := by
  have hboots : Agreed d.rosters := setup_boots hsetup
  refine ⟨hboots, ?_⟩
  have hrun := rosterMachine.run_inv (G := fun _ c => c.runsOrNot)
    (P := fun d reports => Agreed d.rosters ∧ ∀ r ∈ reports, r.Sound) ?_ cs d []
    ⟨hboots, fun r hr => by cases hr⟩ hexec
  · exact hrun.2
  · rintro d reports c ⟨hagreed, hreports⟩ hc
    have hsound := rosterCall_sound hagreed hc
    refine ⟨hsound.agreed, fun r hr => ?_⟩
    rcases List.mem_append.mp hr with hold | hnew
    · exact hreports r hold
    · rw [List.mem_singleton.mp hnew]
      exact hsound

/-- The recovery admin's session. -/
def recoverySession : NoiseIkCtx := { noiseIkCtxZero with ready := true }

/-- The recovery admin's REVOKE of slot 1. -/
def revokeCall (storeExec : FlashExec) : RosterCall where
  command := .revoke
  caller := recoverySession
  env := { benchEnv with storeExec := storeExec }
  arguments := [bleCmdControllerRevoke, 1]

/-- A revocation whose flash operation is refused, and one that is run. -/
theorem rosters_never_diverge_bench :
    ((revokeCall .ok).run bootedBench).1 = .ok ∧ Agreed bootedBench.rosters ∧
      ∀ r ∈ rosterMachine.trace bootedBench [revokeCall (.failed false), revokeCall .ok],
        r.Sound := by
  refine ⟨?_, rosters_never_diverge bench_setup ⟨by decide, by decide, trivial⟩⟩
  have hadmin : controllerStoreIsAdmin benchProvisioning.imported 0 = true := by decide +kernel
  exact revoke_returns (revokeCandidate_returns rfl rfl hadmin (by decide) bench_revoke)
    bench_commit

end PicoBridge
