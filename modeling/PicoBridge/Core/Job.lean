/-
The core as a one-shot slot: every run of core calls from
`bridge_core_init` is a run of `Lib.OneShot`, so the slot's promises
about offers, approvals and items are promises about stages, confirms
and keystrokes.

# The reading

`coreMachine` consumes calls and emits what an observer learns from a
call and its result (`coreLabels`): a stage that returns OK offers the
job with the stroke list it computed, a confirm that returns OK
approves its (owner, id) at its clock value, a next that returns OK
takes a stroke, and a cancel, abort, expiry or DONE drops the job.

# The simulation

`Refines` ties the core to the slot: the ledger is the slot's, a staged
core holds an offered job with the cursor at 0, an executing core has
exactly the strokes from its cursor on still to give. `refines_step` is
one case per operation off the inversion lemmas of Core/Steps.lean.
-/
import PicoBridge.Lib.OneShot
import PicoBridge.Core.Steps

namespace PicoBridge

open Lib (Machine Trace)
open Lib.OneShot (Label Slot Reading Step)

-- ============================================================ core calls

/-- A call of the core's API with its arguments. `next` says whether its
stroke pointer is null; the null core pointer is an argument of
`coreCall`. -/
inductive CoreCall
  | stage (owner id layout mode : UInt32) (flags : UInt8) (utf8 : Option (List UInt8))
      (length : Nat) (nowMs ttlMs : UInt32)
  | confirm (owner id nowMs : UInt32)
  | next (nowMs : UInt32) (strokeNull : Bool)
  | tick (nowMs : UInt32)
  | cancel (owner id : UInt32)
  | abort

/-- What a call returns: a status (none for `bridge_core_abort`) and the
stroke left in `*stroke`. -/
structure CoreReply where
  status : Option BridgeStatus
  stroke : BridgeStroke

/-- One call on a core that is there. -/
def coreOp (core : BridgeCore) : CoreCall → CoreReply × BridgeCore
  | .stage owner id layout mode flags utf8 length nowMs ttlMs =>
      let r := bridgeCoreStage core owner id layout mode flags utf8 length nowMs ttlMs
      (⟨r.1, zeroStroke⟩, r.2)
  | .confirm owner id nowMs =>
      let r := bridgeCoreConfirm core owner id nowMs
      (⟨r.1, zeroStroke⟩, r.2)
  | .next nowMs strokeNull =>
      if strokeNull then (⟨some .errArgument, zeroStroke⟩, core)
      else
        let r := bridgeCoreNext core nowMs
        (⟨r.1, r.2.1⟩, r.2.2)
  | .tick nowMs =>
      let r := bridgeCoreTick core nowMs
      (⟨r.1, zeroStroke⟩, r.2)
  | .cancel owner id =>
      let r := bridgeCoreCancel core owner id
      (⟨r.1, zeroStroke⟩, r.2)
  | .abort => (⟨none, zeroStroke⟩, bridgeCoreAbort core)

/-- One call, with the null-pointer guard every operation opens with:
`ERR_ARGUMENT` (nothing for the void abort), and the core untouched. -/
def coreCall (core : BridgeCore) (coreNull : Bool) (call : CoreCall) :
    CoreReply × BridgeCore :=
  if coreNull then
    (⟨match call with | .abort => none | _ => some .errArgument, zeroStroke⟩, core)
  else coreOp core call

-- ============================================================ the labels

/-- A staged job, as the slot sees it. -/
structure StagedJob where
  owner : UInt32
  id : UInt32
  stagedAtMs : UInt32
  ttlMs : UInt32
  strokes : List BridgeStroke
  deriving DecidableEq

/-- The key is the (owner, id) pair, the items are the strokes, and an
approval is in time while the clock is less than the ttl away from the
staging, modulo 2^32. -/
def jobReading : Reading StagedJob (UInt32 × UInt32) BridgeStroke UInt32 where
  key j := (j.owner, j.id)
  items j := j.strokes
  inTime j nowMs := nowMs - j.stagedAtMs < j.ttlMs

abbrev CoreLabel := Label StagedJob (UInt32 × UInt32) BridgeStroke UInt32

/-- The strokes from the cursor on. -/
def BridgeCore.remaining (core : BridgeCore) : List BridgeStroke :=
  (List.range' core.cursor (core.strokeCount - core.cursor)).map core.strokes

/-- The stroke list a stage computed. -/
def BridgeCore.strokeList (core : BridgeCore) : List BridgeStroke :=
  (List.range core.strokeCount).map core.strokes

/-- What an observer learns from a call, its reply and, for a successful
stage, the stroke list it built. -/
def coreLabels (call : CoreCall) (reply : CoreReply) (after : BridgeCore) :
    List CoreLabel :=
  match call, reply.status with
  | .stage owner id _ _ _ _ _ nowMs ttlMs, some .ok =>
      [.offer ⟨owner, id, nowMs, ttlMs, after.strokeList⟩]
  | .confirm owner id nowMs, some .ok => [.approve (owner, id) nowMs]
  | .confirm .., some .errExpired => [.drop]
  | .next .., some .ok => [.take reply.stroke]
  | .next .., some .done => [.drop]
  | .next .., some .errExpired => [.drop]
  | .tick _, some .errExpired => [.drop]
  | .cancel .., some .ok => [.drop]
  | .abort, _ => [.drop]
  | _, _ => []

/-- The core as a machine over calls; the Boolean says that the call
passes a null core pointer, which an observer learns nothing from. -/
def coreMachine : Machine BridgeCore (Bool × CoreCall) CoreLabel where
  step core c :=
    let r := coreCall core c.1 c.2
    (r.2, if c.1 then [] else coreLabels c.2 r.1 r.2)

-- ======================================================= the simulation

/-- The job a staged core holds. -/
def BridgeCore.job (core : BridgeCore) : StagedJob :=
  ⟨core.owner, core.id, core.stagedAtMs, core.ttlMs, core.strokeList⟩

/-- The simulation relation between the core and the one-shot slot. -/
def Refines (core : BridgeCore)
    (a : List (UInt32 × UInt32) × Slot StagedJob BridgeStroke) : Prop :=
  a.1 = core.replay ∧
    ((core.state = .staged ∧ core.cursor = 0 ∧ a.2 = .offered core.job)
      ∨ (core.state = .executing ∧ core.cursor ≤ core.strokeCount ∧
          ∃ j, a.2 = .open j core.remaining)
      ∨ (¬core.live ∧ a.2 = .idle))

theorem refines_init : Refines bridgeCoreInit ([], .idle) :=
  ⟨rfl, .inr (.inr ⟨by decide, rfl⟩)⟩

/-- A terminated core is the empty slot, whatever it held. -/
theorem refines_terminate (core : BridgeCore) {st : BridgeState}
    (hst : st ≠ .staged ∧ st ≠ .executing) :
    Refines (terminate core st) (core.replay, .idle) :=
  ⟨rfl, .inr (.inr ⟨fun h => h.elim hst.1 hst.2, rfl⟩)⟩

/-- With the cursor at 0 everything remains. -/
theorem remaining_of_cursor_zero {core : BridgeCore} (h : core.cursor = 0) :
    core.remaining = core.strokeList := by
  simp [BridgeCore.remaining, BridgeCore.strokeList, h, List.range_eq_range']

/-- An executing core short of its end gives the stroke under its
cursor and keeps the rest. -/
theorem remaining_advance {core : BridgeCore} (h : core.cursor < core.strokeCount) :
    core.remaining = core.strokes core.cursor :: core.advance.remaining := by
  have hlen : core.strokeCount - core.cursor = core.strokeCount - (core.cursor + 1) + 1 := by
    omega
  simp only [BridgeCore.remaining, BridgeCore.advance, hlen, List.range'_succ,
    List.map_cons, List.cons.injEq, true_and]
  refine List.map_congr_left fun i hi => ?_
  have : core.cursor ≠ i := by
    have := List.mem_range'_1.mp hi
    omega
  rw [Function.update_of_ne this.symm]

/-- A core dropped from any slot ends empty. -/
theorem refines_drop {core : BridgeCore} {st : BridgeState}
    {a : List (UInt32 × UInt32) × Slot StagedJob BridgeStroke} (ha : Refines core a)
    (hst : st ≠ .staged ∧ st ≠ .executing) :
    ∃ b, Trace (Step jobReading) a [.drop] b ∧ Refines (terminate core st) b := by
  obtain ⟨used, slot⟩ := a
  refine ⟨(used, .idle), .cons .drop (.nil _), ?_⟩
  have hu : used = core.replay := ha.1
  rw [hu]
  exact refines_terminate core hst

/-- A refused stage wipes a core that held no job: the slot stays empty. -/
theorem refines_refuse {core : BridgeCore}
    {a : List (UInt32 × UInt32) × Slot StagedJob BridgeStroke} (ha : Refines core a)
    (hidle : ¬core.live) :
    ∃ b, Trace (Step jobReading) a [] b ∧ Refines (terminate core .rejected) b := by
  obtain ⟨used, slot⟩ := a
  obtain ⟨hu, hs⟩ := ha
  dsimp only at hu hs
  subst hu
  rcases hs with ⟨h, -⟩ | ⟨h, -⟩ | ⟨-, rfl⟩
  · exact absurd (.inl h) hidle
  · exact absurd (.inr h) hidle
  · exact ⟨_, .nil _, refines_terminate core (by decide)⟩

/-- An unchanged core needs no abstract step. -/
theorem refines_stay {core : BridgeCore}
    {a : List (UInt32 × UInt32) × Slot StagedJob BridgeStroke} (ha : Refines core a) :
    ∃ b, Trace (Step jobReading) a [] b ∧ Refines core b :=
  ⟨a, .nil a, ha⟩

/-- A successful stage is an offer. -/
theorem refines_stage {core : BridgeCore} {owner id layout mode : UInt32} {flags : UInt8}
    {nowMs ttlMs : UInt32} {n : Nat} {f : Nat → BridgeStroke}
    {a : List (UInt32 × UInt32) × Slot StagedJob BridgeStroke} (ha : Refines core a)
    (hidle : ¬core.live) (hfresh : (owner, id) ∉ core.replay) :
    ∃ b, Trace (Step jobReading) a
        [.offer (stagedCore core owner id layout mode flags nowMs ttlMs n f).job] b
      ∧ Refines (stagedCore core owner id layout mode flags nowMs ttlMs n f) b := by
  obtain ⟨used, slot⟩ := a
  obtain ⟨hu, hs⟩ := ha
  dsimp only at hu hs
  subst hu
  rcases hs with ⟨h, -⟩ | ⟨h, -⟩ | ⟨-, hidle'⟩
  · exact absurd (.inl h) hidle
  · exact absurd (.inr h) hidle
  · subst hidle'
    exact ⟨_, .cons (.offer hfresh) (.nil _), rfl, .inl ⟨rfl, rfl, rfl⟩⟩

/-- A successful confirm is an in-time approval. -/
theorem refines_confirm {core : BridgeCore} {nowMs : UInt32}
    {a : List (UInt32 × UInt32) × Slot StagedJob BridgeStroke} (ha : Refines core a)
    (hs : core.state = .staged) (ht : ¬core.elapsed nowMs) :
    ∃ b, Trace (Step jobReading) a [.approve (core.owner, core.id) nowMs] b
      ∧ Refines { core with state := .executing } b := by
  obtain ⟨used, slot⟩ := a
  obtain ⟨hu, hslot⟩ := ha
  dsimp only at hu hslot
  subst hu
  rcases hslot with ⟨-, hc, rfl⟩ | ⟨h, -⟩ | ⟨h, -⟩
  · have hin : jobReading.inTime core.job nowMs := by
      simpa [jobReading, BridgeCore.job, BridgeCore.elapsed] using ht
    refine ⟨_, .cons (.approve (j := core.job) hin) (.nil _), rfl,
      .inr (.inl ⟨rfl, ?_, core.job, ?_⟩)⟩
    · rw [hc]
      exact Nat.zero_le _
    · have hall : { core with state := .executing : BridgeCore }.remaining = core.strokeList :=
        remaining_of_cursor_zero hc
      exact congrArg (Slot.open core.job) hall.symm
  · rw [hs] at h
    cases h
  · exact absurd (.inl hs) h

/-- A stroke handed out is the slot's next item. -/
theorem refines_take {core : BridgeCore}
    {a : List (UInt32 × UInt32) × Slot StagedJob BridgeStroke} (ha : Refines core a)
    (hs : core.state = .executing) (hc : core.cursor ≠ core.strokeCount) :
    ∃ b, Trace (Step jobReading) a [.take (core.strokes core.cursor)] b
      ∧ Refines core.advance b := by
  obtain ⟨used, slot⟩ := a
  obtain ⟨hu, hslot⟩ := ha
  dsimp only at hu hslot
  subst hu
  rcases hslot with ⟨h, -⟩ | ⟨-, hle, j, rfl⟩ | ⟨h, -⟩
  · rw [hs] at h
    cases h
  · have hlt : core.cursor < core.strokeCount := by omega
    rw [remaining_advance hlt]
    exact ⟨_, .cons .take (.nil _), rfl, .inr (.inl ⟨hs, hlt, j, rfl⟩)⟩
  · exact absurd (.inr hs) h

/-- The simulation step: every call of the core is matched by what its
labels say the slot did. -/
theorem refines_step (core : BridgeCore)
    (a : List (UInt32 × UInt32) × Slot StagedJob BridgeStroke) (c : Bool × CoreCall)
    (ha : Refines core a) :
    ∃ b, Trace (Step jobReading) a (coreMachine.step core c).2 b
      ∧ Refines (coreMachine.step core c).1 b := by
  obtain ⟨coreNull, call⟩ := c
  cases coreNull with
  | true => exact refines_stay ha
  | false =>
      simp only [coreMachine, coreCall, Bool.false_eq_true, if_false]
      cases call with
      | stage owner id layout mode flags utf8 length nowMs ttlMs =>
          simp only [coreOp]
          rcases bridgeCoreStage_cases core owner id layout mode flags utf8 length nowMs
              ttlMs with ⟨-, h⟩ | ⟨hidle, st, hok, -, h⟩ | ⟨hidle, hfresh, -, input, n, f, -, h, -⟩
          · rw [h]
            exact refines_stay ha
          · rw [h]
            have hnone : coreLabels (.stage owner id layout mode flags utf8 length nowMs ttlMs)
                ⟨some st, zeroStroke⟩ (terminate core .rejected) = [] := by
              cases st <;> first | rfl | exact absurd rfl hok
            simp only [hnone]
            exact refines_refuse ha hidle
          · rw [h]
            exact refines_stage ha hidle hfresh
      | confirm owner id nowMs =>
          simp only [coreOp]
          rcases bridgeCoreConfirm_cases core owner id nowMs with
            ⟨st, hst, h⟩ | ⟨hs, rfl, rfl, he, h⟩ | ⟨hs, rfl, rfl, he, h⟩
          · rw [h]
            rcases hst with rfl | rfl | rfl <;> exact refines_stay ha
          · rw [h]
            exact refines_drop ha (by decide)
          · rw [h]
            exact refines_confirm ha hs he
      | next nowMs strokeNull =>
          cases strokeNull with
          | true => exact refines_stay ha
          | false =>
              simp only [coreOp, Bool.false_eq_true, if_false]
              rcases bridgeCoreNext_cases core nowMs with
                ⟨-, -, h⟩ | ⟨-, -, h⟩ | ⟨-, -, h⟩ | ⟨hs, hc, h⟩
              · rw [h]
                exact refines_drop ha (by decide)
              · rw [h]
                exact refines_stay ha
              · rw [h]
                exact refines_drop ha (by decide)
              · rw [h]
                exact refines_take ha hs hc
      | tick nowMs =>
          simp only [coreOp]
          rcases bridgeCoreTick_cases core nowMs with ⟨-, -, h⟩ | ⟨-, h⟩
          · rw [h]
            exact refines_drop ha (by decide)
          · rw [h]
            exact refines_stay ha
      | cancel owner id =>
          simp only [coreOp]
          rcases bridgeCoreCancel_cases core owner id with ⟨-, -, -, h⟩ | ⟨-, st, hst, h⟩
          · rw [h]
            exact refines_drop ha (by decide)
          · rw [h]
            rcases hst with rfl | rfl | rfl <;> exact refines_stay ha
      | abort => exact refines_drop ha (by decide)

-- ============================================================== the runs

/-- Every run of core calls is a run of the one-shot slot. -/
theorem coreRun_trace (calls : List (Bool × CoreCall)) :
    ∃ b, Trace (Step jobReading) ([], .idle) (coreMachine.trace bridgeCoreInit calls) b :=
  let ⟨b, h, _⟩ := coreMachine.trace_of_sim refines_step calls _ _ refines_init
  ⟨b, h⟩

/-- Over every run of core calls from `bridge_core_init`, with any
arguments and any clock values: between a successful stage and the next
one the strokes taken are a prefix of the stroke list the stage
computed, each of them after a confirm of the job's own (owner, id) at
a clock less than its ttl from the staging, and none after a cancel,
abort, expiry or DONE; nothing is taken before the first successful
stage; and no (owner, id) pair is staged twice. -/
theorem coreRun_types_staged_jobs_once (calls : List (Bool × CoreCall)) :
    let ls := coreMachine.trace bridgeCoreInit calls
    (∀ pre job post, ls = pre ++ .offer job :: post →
        Lib.OneShot.takes (Lib.OneShot.segment post) <+: job.strokes
          ∧ ∀ before stroke after,
              Lib.OneShot.segment post = before ++ .take stroke :: after →
              (∃ nowMs, .approve (job.owner, job.id) nowMs ∈ before
                ∧ nowMs - job.stagedAtMs < job.ttlMs)
              ∧ .drop ∉ before)
      ∧ Lib.OneShot.takes (Lib.OneShot.segment ls) = []
      ∧ ((Lib.OneShot.offers ls).map fun job => (job.owner, job.id)).Nodup := by
  obtain ⟨b, h⟩ := coreRun_trace calls
  refine ⟨?_, Lib.OneShot.takes_idle h, Lib.OneShot.offers_nodup h⟩
  intro pre job post hsplit
  rw [hsplit] at h
  refine ⟨Lib.OneShot.takes_prefix h, fun before stroke after hseg => ?_⟩
  exact ⟨Lib.OneShot.take_approved h hseg, Lib.OneShot.take_before_drop h hseg⟩

end PicoBridge
