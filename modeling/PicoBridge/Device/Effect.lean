/-
What one authenticated command does to the device, part by part, and
what it cannot do to a job.

# The three parts

A plaintext frame makes at most one core call (`commandCall`), commits at
most one roster (`controllerCandidate`) and never touches the Noise
session: `command_core`, `command_roster` and `command_noise` read the
dispatcher so, over all its cases. Whatever is proved of a command goes
through them.

`command_radio` says the same of the radio sector, with the role check
that stands before every write of it.

# A job in place

`command_keeps_job` is the frame property of the job. Besides its own
cancel and its expiry on the device's clock there is one more way to lose
a staged job: a TICK frame carries its own clock value (`WireTick`).
-/
import PicoBridge.Store.Commit
import PicoBridge.Device.Dispatch

namespace PicoBridge

theorem toByte_ok {st : BridgeStatus} (h : st.toByte = BridgeStatus.ok.toByte) : st = .ok := by
  cases st <;> first | rfl | exact absurd h (by decide)

-- ====================================================== the core, by frame

/-- The core call a plaintext frame makes. -/
def commandCall (p : List UInt8) : Option TransportCall :=
  let cmd := byteOf p 0
  if cmd = bleCmdStage then
    if p.length < 14 ∨ p.length < (14 + u16Of p 12) % 65536 then none
    else
      some (.stage (u32Of p 1) (u32Of p 5)
        (if byteOf p 9 = 2 then bridgeLayoutDe else bridgeLayoutUs)
        (if byteOf p 10 = 2 then bridgeModeText else bridgeModePassword)
        (byteOf p 11) (p.drop 14) (u16Of p 12))
  else if cmd = bleCmdConfirm then
    if p.length < 9 then none else some (.confirm (u32Of p 1) (u32Of p 5))
  else if cmd = bleCmdCancel then
    if p.length < 9 then none else some (.cancel (u32Of p 1) (u32Of p 5))
  else if cmd = bleCmdTick then
    if p.length < 5 then none else some (.tick (u32Of p 1))
  else none

/-- The core after an optional call. -/
def coreAfter (core : BridgeCore) (bleNowMs : UInt32) : Option TransportCall → BridgeCore
  | none => core
  | some call => (coreOp core (call.coreCall bleNowMs)).2

theorem bleHandleStage_core (core : BridgeCore) (now : UInt32) {p : List UInt8}
    (hcmd : byteOf p 0 = bleCmdStage) :
    (bleHandleStage core now p).2 = coreAfter core now (commandCall p) := by
  unfold bleHandleStage commandCall
  simp only [hcmd, if_true]
  by_cases h14 : p.length < 14
  · rw [if_pos h14, if_pos (.inl h14)]
    rfl
  · rw [if_neg h14]
    by_cases hulen : p.length < (14 + u16Of p 12) % 65536
    · rw [if_pos hulen, if_pos (.inr hulen)]
      rfl
    · rw [if_neg hulen, if_neg (not_or.mpr ⟨h14, hulen⟩)]
      rfl

theorem bleHandleConfirm_core (core : BridgeCore) (now : UInt32) {p : List UInt8}
    (hcmd : byteOf p 0 = bleCmdConfirm) :
    (bleHandleConfirm core now p).2 = coreAfter core now (commandCall p) := by
  have hcall : commandCall p
      = if p.length < 9 then none else some (.confirm (u32Of p 1) (u32Of p 5)) := by
    simp only [commandCall, hcmd]
    rfl
  rw [hcall, bleHandleConfirm]
  split <;> rfl

theorem bleHandleCancel_core (core : BridgeCore) (now : UInt32) {p : List UInt8}
    (hcmd : byteOf p 0 = bleCmdCancel) :
    (bleHandleCancel core p).2 = coreAfter core now (commandCall p) := by
  have hcall : commandCall p
      = if p.length < 9 then none else some (.cancel (u32Of p 1) (u32Of p 5)) := by
    simp only [commandCall, hcmd]
    rfl
  rw [hcall, bleHandleCancel]
  split <;> rfl

theorem bleHandleTick_core (core : BridgeCore) (now : UInt32) {p : List UInt8}
    (hcmd : byteOf p 0 = bleCmdTick) :
    (bleHandleTick core p).2 = coreAfter core now (commandCall p) := by
  have hcall : commandCall p
      = if p.length < 5 then none else some (.tick (u32Of p 1)) := by
    simp only [commandCall, hcmd]
    rfl
  rw [hcall, bleHandleTick]
  split <;> rfl

/-- No other command calls the core. -/
theorem commandCall_none {p : List UInt8} (h : byteOf p 0 ≠ bleCmdStage ∧
    byteOf p 0 ≠ bleCmdConfirm ∧ byteOf p 0 ≠ bleCmdCancel ∧ byteOf p 0 ≠ bleCmdTick) :
    commandCall p = none := by
  unfold commandCall
  simp only [h, if_false]

/-- Only the two controller commands commit a roster. -/
theorem controllerCandidate_none {d : Device} {p : List UInt8}
    (h : byteOf p 0 ≠ bleCmdControllerAdd ∧ byteOf p 0 ≠ bleCmdControllerRevoke) :
    controllerCandidate d p = none := by
  unfold controllerCandidate
  rw [if_neg h.1, if_neg h.2]

-- ========================================================== the whole effect

/-- The RAM roster and the trust store after an optional commit. -/
def rosterAfter (d : Device) (env : FrameEnv) :
    Option ControllerStore → ControllerStore × StoreFlash
  | none => (d.controllers, d.store)
  | some candidate =>
      match controllerStoreFlashCommit d.store candidate env.storeExec with
      | (.ok _, flash) => (candidate, flash)
      | (.error _, flash) => (d.controllers, flash)

/-- What a plaintext frame does to the core, the session and the rosters. -/
structure Effect (d : Device) (env : FrameEnv) (data : List UInt8) (d' : Device) : Prop where
  core : d'.core = coreAfter d.core env.bleNowMs (commandCall data)
  noise : d'.noise = d.noise
  roster : (d'.controllers, d'.store) = rosterAfter d env (controllerCandidate d data)

theorem Effect.ack {d d' : Device} {env : FrameEnv} {data : List UInt8}
    (h : Effect d env data d') (status : UInt8) :
    Effect d env data { d' with cmdAckStatus := status } := ⟨h.core, h.noise, h.roster⟩

/-- A frame that calls no core and commits no roster. -/
theorem effect_quiet {d d' : Device} {env : FrameEnv} {data : List UInt8}
    (hcall : commandCall data = none) (hcandidate : controllerCandidate d data = none)
    (hcore : d'.core = d.core) (hnoise : d'.noise = d.noise)
    (hroster : (d'.controllers, d'.store) = (d.controllers, d.store)) :
    Effect d env data d' := by
  refine ⟨?_, hnoise, ?_⟩
  · rw [hcall]
    exact hcore
  · rw [hcandidate]
    exact hroster

/-- A frame for the core. -/
theorem effect_core {d : Device} {env : FrameEnv} {data : List UInt8}
    {r : BridgeStatus × BridgeCore} (hcandidate : controllerCandidate d data = none)
    (h : r.2 = coreAfter d.core env.bleNowMs (commandCall data)) :
    Effect d env data (d.onCore r).2 := by
  refine ⟨h, rfl, ?_⟩
  rw [hcandidate]
  rfl

/-- A controller command. -/
theorem effect_commit {d : Device} {env : FrameEnv} {data : List UInt8}
    {candidate : Except BridgeStatus ControllerStore} (hcall : commandCall data = none)
    (h : controllerCandidate d data = candidate.toOption) :
    Effect d env data (commitCandidate d env candidate).2 := by
  cases candidate with
  | error st => exact effect_quiet hcall h rfl rfl rfl
  | ok store =>
      rcases hcommit : controllerStoreFlashCommit d.store store env.storeExec with ⟨result, flash⟩
      have hroster : rosterAfter d env (controllerCandidate d data)
          = rosterAfter d env (some store) := by
        rw [h]
        rfl
      have hcore : coreAfter d.core env.bleNowMs (commandCall data) = d.core := by
        rw [hcall]
        rfl
      cases result with
      | ok _ =>
          simp only [rosterAfter, hcommit] at hroster
          simp only [commitCandidate, hcommit]
          exact ⟨hcore.symm, rfl, hroster.symm⟩
      | error e =>
          simp only [rosterAfter, hcommit] at hroster
          simp only [commitCandidate, hcommit]
          exact ⟨hcore.symm, rfl, hroster.symm⟩

theorem setRadio_same (d : Device) (env : FrameEnv) (p : List UInt8) :
    (bleHandleSetRadio d env p).2.core = d.core ∧
      (bleHandleSetRadio d env p).2.noise = d.noise ∧
      ((bleHandleSetRadio d env p).2.controllers, (bleHandleSetRadio d env p).2.store)
        = (d.controllers, d.store) := by
  unfold bleHandleSetRadio
  split <;> exact ⟨rfl, rfl, rfl⟩

theorem clearRadio_same (d : Device) (env : FrameEnv) :
    (bleHandleClearRadio d env).2.core = d.core ∧
      (bleHandleClearRadio d env).2.noise = d.noise ∧
      ((bleHandleClearRadio d env).2.controllers, (bleHandleClearRadio d env).2.store)
        = (d.controllers, d.store) := by
  unfold bleHandleClearRadio
  split
  · exact ⟨rfl, rfl, rfl⟩
  · split <;> exact ⟨rfl, rfl, rfl⟩

/-- The cases of the switch with a bridge status, one by one. -/
theorem bridgeCommand_effect {d : Device} {env : FrameEnv} {data : List UInt8}
    {r : BridgeStatus × Device} (h : bridgeCommand d env data = some r) :
    Effect d env data r.2 := by
  unfold bridgeCommand at h
  dsimp only at h
  by_cases hstage : byteOf data 0 = bleCmdStage
  · rw [if_pos hstage] at h
    cases h
    refine effect_core (controllerCandidate_none ?_) (bleHandleStage_core _ _ hstage)
    rw [hstage]
    decide
  rw [if_neg hstage] at h
  by_cases hconfirm : byteOf data 0 = bleCmdConfirm
  · rw [if_pos hconfirm] at h
    cases h
    refine effect_core (controllerCandidate_none ?_) (bleHandleConfirm_core _ _ hconfirm)
    rw [hconfirm]
    decide
  rw [if_neg hconfirm] at h
  by_cases hcancel : byteOf data 0 = bleCmdCancel
  · rw [if_pos hcancel] at h
    cases h
    refine effect_core (controllerCandidate_none ?_) (bleHandleCancel_core _ _ hcancel)
    rw [hcancel]
    decide
  rw [if_neg hcancel] at h
  by_cases htick : byteOf data 0 = bleCmdTick
  · rw [if_pos htick] at h
    cases h
    refine effect_core (controllerCandidate_none ?_) (bleHandleTick_core _ _ htick)
    rw [htick]
    decide
  rw [if_neg htick] at h
  -- from here on no frame is for the core
  have hcall : commandCall data = none := commandCall_none ⟨hstage, hconfirm, hcancel, htick⟩
  by_cases hadd : byteOf data 0 = bleCmdControllerAdd
  · rw [if_pos hadd] at h
    cases h
    refine effect_commit hcall ?_
    rw [controllerCandidate, if_pos hadd]
  rw [if_neg hadd] at h
  by_cases hrevoke : byteOf data 0 = bleCmdControllerRevoke
  · rw [if_pos hrevoke] at h
    cases h
    refine effect_commit hcall ?_
    rw [controllerCandidate, if_neg hadd, if_pos hrevoke]
  rw [if_neg hrevoke] at h
  have hcandidate : controllerCandidate d data = none := controllerCandidate_none ⟨hadd, hrevoke⟩
  by_cases hset : byteOf data 0 = bleCmdSetRadio
  · rw [if_pos hset] at h
    cases h
    obtain ⟨hc, hn, hr⟩ := setRadio_same d env data
    exact effect_quiet hcall hcandidate hc hn hr
  rw [if_neg hset] at h
  by_cases hclear : byteOf data 0 = bleCmdClearRadio
  · rw [if_pos hclear] at h
    cases h
    obtain ⟨hc, hn, hr⟩ := clearRadio_same d env
    exact effect_quiet hcall hcandidate hc hn hr
  rw [if_neg hclear] at h
  cases h

/-- Every other frame leaves all three alone. -/
theorem bridgeCommand_none {d : Device} {env : FrameEnv} {data : List UInt8}
    (h : bridgeCommand d env data = none) :
    commandCall data = none ∧ controllerCandidate d data = none := by
  unfold bridgeCommand at h
  dsimp only at h
  split at h
  · cases h
  next hstage =>
    split at h
    · cases h
    next hconfirm =>
      split at h
      · cases h
      next hcancel =>
        split at h
        · cases h
        next htick =>
          split at h
          · cases h
          next hadd =>
            split at h
            · cases h
            next hrevoke =>
              exact ⟨commandCall_none ⟨hstage, hconfirm, hcancel, htick⟩,
                controllerCandidate_none ⟨hadd, hrevoke⟩⟩

/-- The dispatcher, over every frame. -/
theorem command_effect (d : Device) (env : FrameEnv) (data : List UInt8) :
    Effect d env data (bleHandleAuthenticatedCommand d env data).2 := by
  unfold bleHandleAuthenticatedCommand
  by_cases hlen : data.length = 0
  · rw [if_pos hlen]
    obtain rfl := List.length_eq_zero_iff.mp hlen
    exact effect_quiet rfl rfl rfl rfl rfl
  rw [if_neg hlen]
  cases hbridge : bridgeCommand d env data with
  | some r => exact (bridgeCommand_effect hbridge).ack _
  | none =>
      obtain ⟨hcall, hcandidate⟩ := bridgeCommand_none hbridge
      dsimp only
      split <;> exact effect_quiet hcall hcandidate rfl rfl rfl

-- ======================================================== the radio sector

/-- SET_RADIO checks the role before it builds an image. -/
theorem radioImage_admin {d : Device} {env : FrameEnv} {p : List UInt8} {image : Sector}
    (h : radioImage d env p = .ok image) :
    controllerStoreIsAdmin d.controllers d.noise.noiseAuthenticatedSlot = true := by
  unfold radioImage at h
  split at h
  next => cases h
  next =>
    split at h
    next => cases h
    next hadmin => exact not_not.mp hadmin

/-- The commands that write the radio sector. -/
def radioCommand (data : List UInt8) : Prop :=
  byteOf data 0 = bleCmdSetRadio ∨ byteOf data 0 = bleCmdClearRadio

theorem setRadio_radio (d : Device) (env : FrameEnv) (p : List UInt8) :
    (bleHandleSetRadio d env p).2.radio = d.radio ∨
      controllerStoreIsAdmin d.controllers d.noise.noiseAuthenticatedSlot = true := by
  unfold bleHandleSetRadio
  cases himage : radioImage d env p with
  | error st => exact .inl rfl
  | ok image => exact .inr (radioImage_admin himage)

theorem clearRadio_radio (d : Device) (env : FrameEnv) :
    (bleHandleClearRadio d env).2.radio = d.radio ∨
      controllerStoreIsAdmin d.controllers d.noise.noiseAuthenticatedSlot = true := by
  unfold bleHandleClearRadio
  split
  next => exact .inl rfl
  next hadmin => exact .inr (not_not.mp hadmin)

theorem commit_radio (d : Device) (env : FrameEnv)
    (candidate : Except BridgeStatus ControllerStore) :
    (commitCandidate d env candidate).2.radio = d.radio := by
  unfold commitCandidate
  split
  · rfl
  · split <;> rfl

theorem bridgeCommand_radio {d : Device} {env : FrameEnv} {data : List UInt8}
    {r : BridgeStatus × Device} (h : bridgeCommand d env data = some r) :
    r.2.radio = d.radio ∨ radioCommand data ∧
      controllerStoreIsAdmin d.controllers d.noise.noiseAuthenticatedSlot = true := by
  unfold bridgeCommand at h
  dsimp only at h
  split at h
  · cases h
    exact .inl rfl
  split at h
  · cases h
    exact .inl rfl
  split at h
  · cases h
    exact .inl rfl
  split at h
  · cases h
    exact .inl rfl
  split at h
  · cases h
    exact .inl (commit_radio d env _)
  split at h
  · cases h
    exact .inl (commit_radio d env _)
  split at h
  next hset =>
    cases h
    exact (setRadio_radio d env data).imp_right fun hadmin => ⟨.inl hset, hadmin⟩
  split at h
  next hclear =>
    cases h
    exact (clearRadio_radio d env).imp_right fun hadmin => ⟨.inr hclear, hadmin⟩
  · cases h

/-- The radio sector is left as it was, or the command is one of the two
and the session's slot has an admin role. -/
theorem command_radio (d : Device) (env : FrameEnv) (data : List UInt8) :
    (bleHandleAuthenticatedCommand d env data).2.radio = d.radio ∨ radioCommand data ∧
      controllerStoreIsAdmin d.controllers d.noise.noiseAuthenticatedSlot = true := by
  unfold bleHandleAuthenticatedCommand
  split
  · exact .inl rfl
  · split
    next status d' hbridge => exact bridgeCommand_radio hbridge
    next => split <;> exact .inl rfl

/-- The same of a power cut inside a command. -/
theorem radioOps_admin (d : Device) (env : FrameEnv) (data : List UInt8) :
    radioOps d env data = [] ∨ radioCommand data ∧
      controllerStoreIsAdmin d.controllers d.noise.noiseAuthenticatedSlot = true := by
  unfold radioOps
  split
  next hset =>
    cases himage : radioImage d env data with
    | error st => exact .inl rfl
    | ok image => exact .inr ⟨.inl hset, radioImage_admin himage⟩
  next =>
    split
    next hclear => exact .inr ⟨.inr hclear.1, hclear.2.1⟩
    next => exact .inl rfl

-- ========================================================= a job in place

/-- The same job, still staged or being typed. -/
structure JobInPlace (core core' : BridgeCore) : Prop where
  live : core'.live
  owner : core'.owner = core.owner
  id : core'.id = core.id
  stagedAtMs : core'.stagedAtMs = core.stagedAtMs
  ttlMs : core'.ttlMs = core.ttlMs
  strokeCount : core'.strokeCount = core.strokeCount
  strokes : core'.strokes = core.strokes
  cursor : core'.cursor = core.cursor

theorem JobInPlace.refl {core : BridgeCore} (h : core.live) : JobInPlace core core :=
  ⟨h, rfl, rfl, rfl, rfl, rfl, rfl, rfl⟩

/-- A CANCEL frame with the job's owner and id. -/
def OwnCancel (core : BridgeCore) (p : List UInt8) : Prop :=
  byteOf p 0 = bleCmdCancel ∧ 9 ≤ p.length ∧ u32Of p 1 = core.owner ∧ u32Of p 5 = core.id

/-- A staged job whose time is up on a clock. -/
def Overdue (core : BridgeCore) (nowMs : UInt32) : Prop :=
  core.state = .staged ∧ core.elapsed nowMs

/-- A TICK frame whose own clock value makes a staged job overdue. -/
def WireTick (core : BridgeCore) (p : List UInt8) : Prop :=
  byteOf p 0 = bleCmdTick ∧ 5 ≤ p.length ∧ Overdue core (u32Of p 1)

instance (core : BridgeCore) (p : List UInt8) : Decidable (OwnCancel core p) :=
  inferInstanceAs (Decidable (_ ∧ _ ∧ _ ∧ _))

instance (core : BridgeCore) (nowMs : UInt32) : Decidable (Overdue core nowMs) :=
  inferInstanceAs (Decidable (_ ∧ _))

instance (core : BridgeCore) (p : List UInt8) : Decidable (WireTick core p) :=
  inferInstanceAs (Decidable (_ ∧ _ ∧ _))

/-- The calls a frame makes, by its command byte. -/
theorem commandCall_cancel {p : List UInt8} {owner id : UInt32}
    (h : commandCall p = some (.cancel owner id)) :
    byteOf p 0 = bleCmdCancel ∧ 9 ≤ p.length ∧ owner = u32Of p 1 ∧ id = u32Of p 5 := by
  unfold commandCall at h
  dsimp only at h
  split at h
  · split at h <;> cases h
  split at h
  · split at h <;> cases h
  split at h
  next hcmd =>
    split at h
    · cases h
    next hlen =>
      cases h
      exact ⟨hcmd, by omega, rfl, rfl⟩
  split at h
  · split at h <;> cases h
  · cases h

theorem commandCall_tick {p : List UInt8} {nowMs : UInt32}
    (h : commandCall p = some (.tick nowMs)) :
    byteOf p 0 = bleCmdTick ∧ 5 ≤ p.length ∧ nowMs = u32Of p 1 := by
  unfold commandCall at h
  dsimp only at h
  split at h
  · split at h <;> cases h
  split at h
  · split at h <;> cases h
  split at h
  · split at h <;> cases h
  split at h
  next hcmd =>
    split at h
    · cases h
    next hlen =>
      cases h
      exact ⟨hcmd, by omega, rfl⟩
  · cases h

/-- What a core call leaves of a live job: only its own cancel and the two
calls that compare clocks can end it. -/
theorem coreOp_keeps {core : BridgeCore} (hlive : core.live) (bleNowMs : UInt32)
    (call : TransportCall)
    (hcancel : ∀ owner id, call = .cancel owner id → ¬(owner = core.owner ∧ id = core.id))
    (hconfirm : ¬Overdue core bleNowMs)
    (htick : ∀ nowMs, call = .tick nowMs → ¬Overdue core nowMs) :
    JobInPlace core (coreOp core (call.coreCall bleNowMs)).2 := by
  cases call with
  | stage owner id layout mode flags utf8 length =>
      simp only [TransportCall.coreCall, coreOp, bridgeCoreStage, if_pos hlive]
      exact .refl hlive
  | confirm owner id =>
      simp only [TransportCall.coreCall, coreOp]
      rcases bridgeCoreConfirm_cases core owner id bleNowMs with
        ⟨st, -, h⟩ | ⟨hs, -, -, he, -⟩ | ⟨-, -, -, -, h⟩
      · rw [h]
        exact .refl hlive
      · exact absurd ⟨hs, he⟩ hconfirm
      · rw [h]
        exact ⟨.inr rfl, rfl, rfl, rfl, rfl, rfl, rfl, rfl⟩
  | cancel owner id =>
      simp only [TransportCall.coreCall, coreOp]
      rcases bridgeCoreCancel_cases core owner id with ⟨-, ho, hi, -⟩ | ⟨-, st, -, h⟩
      · exact absurd ⟨ho, hi⟩ (hcancel owner id rfl)
      · rw [h]
        exact .refl hlive
  | tick nowMs =>
      simp only [TransportCall.coreCall, coreOp]
      rcases bridgeCoreTick_cases core nowMs with ⟨hs, he, -⟩ | ⟨-, h⟩
      · exact absurd ⟨hs, he⟩ (htick nowMs rfl)
      · rw [h]
        exact .refl hlive

/-- No authenticated command takes down a staged or executing job, in any
device state and with any frame, but the CANCEL of its own owner and id,
a command that finds it overdue on the device's clock, and a TICK whose
clock value makes it overdue. -/
theorem command_keeps_job {d : Device} (hlive : d.core.live) (env : FrameEnv)
    {data : List UInt8} (hcancel : ¬OwnCancel d.core data)
    (hclock : ¬Overdue d.core env.bleNowMs) (htick : ¬WireTick d.core data) :
    JobInPlace d.core (bleHandleAuthenticatedCommand d env data).2.core := by
  rw [(command_effect d env data).core]
  cases hcall : commandCall data with
  | none => exact .refl hlive
  | some call =>
      refine coreOp_keeps hlive env.bleNowMs call ?_ hclock ?_
      · rintro owner id rfl ⟨howner, hid⟩
        obtain ⟨hcmd, hlen, ho, hi⟩ := commandCall_cancel hcall
        exact hcancel ⟨hcmd, hlen, ho ▸ howner, hi ▸ hid⟩
      · rintro nowMs rfl hover
        obtain ⟨hcmd, hlen, hnow⟩ := commandCall_tick hcall
        exact htick ⟨hcmd, hlen, hnow ▸ hover⟩

-- ============================================================ two frames

/-- A device at work: the recovery admin enrolled, no session. -/
def benchDevice : Device where
  core := bridgeCoreInit
  controllers := seededStore (tagKey 1)
  noise := noiseIkCtxZero
  cmdAckStatus := 0
  store := seededFlash (tagKey 1)
  radio := erasedSector

/-- A build without the network endpoint, at a clock value. -/
def envAt (bleNowMs : UInt32) : FrameEnv := ⟨bleNowMs, true, .ok, .ok, none, none⟩

/-- STAGE of "a" by owner 7, id 1. -/
def stageFrame : List UInt8 := [1, 7, 0, 0, 0, 1, 0, 0, 0, 1, 1, 0, 1, 0, 97]

/-- The device once the job is staged, at 1000 ms. -/
def stagedDevice : Device :=
  (bleHandleAuthenticatedCommand benchDevice (envAt 1000) stageFrame).2

/-- A CANCEL by owner 8 leaves the job in place. -/
theorem stagedDevice_keeps_job :
    JobInPlace stagedDevice.core
      (bleHandleAuthenticatedCommand stagedDevice (envAt 1001) [3, 8, 0, 0, 0, 1, 0, 0, 0]).2.core :=
  command_keeps_job (by decide +kernel) (envAt 1001) (by decide +kernel) (by decide +kernel)
    (by decide +kernel)

/-- A TICK that carries 16000 ms expires the job 1 ms after it was
staged. -/
theorem stagedDevice_ticked :
    let tick : List UInt8 := [4, 0x80, 0x3e, 0, 0]
    stagedDevice.core.live ∧ ¬OwnCancel stagedDevice.core tick ∧
      ¬Overdue stagedDevice.core 1001 ∧
      (bleHandleAuthenticatedCommand stagedDevice (envAt 1001) tick).2.core.state = .expired ∧
      ¬JobInPlace stagedDevice.core
        (bleHandleAuthenticatedCommand stagedDevice (envAt 1001) tick).2.core := by
  intro tick
  have hexpired : (bleHandleAuthenticatedCommand stagedDevice (envAt 1001) tick).2.core.state
      = .expired := by decide +kernel
  refine ⟨by decide +kernel, by decide +kernel, by decide +kernel, hexpired, fun h => ?_⟩
  rcases h.live with hs | hs
  · rw [hexpired] at hs
    cases hs
  · rw [hexpired] at hs
    cases hs

end PicoBridge
