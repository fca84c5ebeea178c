/-
What the roles separate, over the life of a device: who can change the
roster or the radio record, and what nobody can.

# Three results

- A frame that changes one of them carries an admin command, and the
  session's slot has an admin role when it is dispatched
  (`records_change`).
- Operators are no admins, so a life in which every handshake that
  succeeds is an operator's changes nothing, reboots and power cuts
  included (`Settled`).
- Slot 0 is out of reach of ADD, REVOKE and the import of
  `controller_setup`, so whatever boots has it (`RecoveryKept`).
-/
import PicoBridge.Device.Authority

namespace PicoBridge

open Lib (Machine)
open Lib.NorFlash (cutImage)

-- =========================================================== admin commands

/-- ADD, REVOKE, SET_RADIO or CLEAR_RADIO. -/
def adminCommand (p : List UInt8) : Prop :=
  byteOf p 0 = bleCmdControllerAdd ∨ byteOf p 0 = bleCmdControllerRevoke ∨ radioCommand p

/-- The session's slot has an admin role. -/
def AdminSession (d : Device) : Prop :=
  ∃ slot : Fin 5, d.noise.ready = true ∧ d.noise.authenticatedSlot = slot ∧
    ((d.controllers.slots slot).role = controllerRoleAdmin ∨
      (d.controllers.slots slot).role = controllerRoleRecoveryAdmin)

variable (lib : Crypto) (keys : HeaderKeys)

/-- The frame has an admin command dispatched, in a session whose slot has
an admin role at that moment. -/
def AdminFrame (d : Device) (data : List UInt8) : Prop :=
  ∃ p d₁, Dispatches lib d data p d₁ ∧ adminCommand p ∧ AdminSession d₁

/-- What happens is such a frame, cut or not. -/
def AdminActs (w : Power) : Happening → Prop
  | .frame _ data => ∃ d, w = .on d ∧ AdminFrame lib d data
  | .frameCut _ data _ => ∃ d, w = .on d ∧ AdminFrame lib d data
  | _ => False

/-- A boot, cut or not. -/
def Happening.isBoot : Happening → Bool
  | .boot _ _ => true
  | .bootCut _ _ => true
  | _ => false

/-- The trust store, the radio sector and, on a device that runs on, the
RAM roster are the same. -/
structure SameRecords (w w' : Power) : Prop where
  store : w'.store = w.store
  radio : w'.radio = w.radio
  ram : ∀ d d', w = .on d → w' = .on d' → d'.controllers = d.controllers

/-- Every handshake that succeeds is an operator's. -/
def OperatorsOnly (w : Power) : Happening → Prop
  | .frame env data => IsHandshake data → ∀ d response noise, w = .on d →
      noiseIkHandshakeRespond lib d.controllers env.responderEph (data.drop 1)
        (bridgeTransportResponseMax - 1) d.noise = (some response, noise) →
      noise.authenticatedRole = controllerRoleOperator
  | _ => True

-- ======================================================= a frame's records

variable {lib keys} {d d₁ : Device} {env : FrameEnv} {data p : List UInt8}
  {candidate : ControllerStore}

theorem adminSession_of_slot
    (h : controllerStoreIsAdmin d.controllers d.noise.noiseAuthenticatedSlot = true) :
    AdminSession d := by
  unfold NoiseIkCtx.noiseAuthenticatedSlot at h
  by_cases hready : d.noise.ready = true
  · rw [if_pos hready] at h
    by_cases hslot : d.noise.authenticatedSlot < 5
    · exact ⟨⟨d.noise.authenticatedSlot, hslot⟩, hready, rfl, (isAdmin_slot _ _).mp h⟩
    · unfold controllerStoreIsAdmin at h
      rw [dif_neg hslot] at h
      cases h
  · rw [if_neg hready] at h
    cases h

/-- A roster is committed for an admin only. -/
theorem candidate_admin (h : controllerCandidate d p = some candidate) :
    adminCommand p ∧ AdminSession d := by
  unfold controllerCandidate at h
  split at h
  next hcmd =>
    cases hadd : addCandidate d p with
    | error st =>
        rw [hadd] at h
        cases h
    | ok candidate' => exact ⟨.inl hcmd, adminSession_of_slot (addCandidate_ok hadd).1⟩
  next =>
    split at h
    next hcmd =>
      cases hrevoke : revokeCandidate d p with
      | error st =>
          rw [hrevoke] at h
          cases h
      | ok candidate' =>
          exact ⟨.inr (.inl hcmd), adminSession_of_slot (revokeCandidate_ok hrevoke).1⟩
    next => cases h

/-- A dispatched command that changes a record is an admin's. -/
theorem afterCommand_records (hdispatch : Dispatches lib d data p d₁)
    (hno : ¬AdminFrame lib d data) (env : FrameEnv) (respCap : Nat) :
    let d' := (afterCommand lib d₁ env p respCap).2
    d'.controllers = d.controllers ∧ d'.store = d.store ∧ d'.radio = d.radio := by
  obtain ⟨hram₁, hflash₁, -⟩ := hdispatch.same
  have hnone : controllerCandidate d₁ p = none := by
    cases hcandidate : controllerCandidate d₁ p with
    | none => rfl
    | some candidate => exact absurd ⟨p, d₁, hdispatch, candidate_admin hcandidate⟩ hno
  have hrosters := afterCommand_rosters lib d₁ env p respCap
  dsimp only at hrosters
  rw [hnone] at hrosters
  refine ⟨(congrArg Prod.fst hrosters).trans hram₁, (congrArg Prod.snd hrosters).trans hflash₁, ?_⟩
  have hradio₁ : d₁.radio = d.radio := by
    obtain ⟨-, -, noise, -, rfl⟩ := hdispatch
    rfl
  obtain ⟨noise, hsend⟩ := sendReceipt_noise lib (bleHandleAuthenticatedCommand d₁ env p).2
    respCap (bleHandleAuthenticatedCommand d₁ env p).1
  have hafter : (afterCommand lib d₁ env p respCap).2.radio
      = (bleHandleAuthenticatedCommand d₁ env p).2.radio := by
    unfold afterCommand
    dsimp only
    rw [hsend]
  rw [hafter]
  rcases command_radio d₁ env p with hsame | ⟨hcmd, hadmin⟩
  · rw [hsame, hradio₁]
  · exact absurd ⟨p, d₁, hdispatch, .inr (.inr hcmd), adminSession_of_slot hadmin⟩ hno

theorem frame_records (hno : ¬AdminFrame lib d data) (env : FrameEnv) (respCap : Nat) :
    let d' := (commandProcessFrame lib d env data respCap).2
    d'.controllers = d.controllers ∧ d'.store = d.store ∧ d'.radio = d.radio := by
  dsimp only
  rcases frame_cases lib d env data respCap with
    ⟨h, -⟩ | ⟨-, response, h⟩ | ⟨p, d₁, hdispatch, h⟩
  · rw [h]
    exact ⟨rfl, rfl, rfl⟩
  · rw [h]
    exact ⟨rfl, rfl, rfl⟩
  · rw [h]
    exact afterCommand_records hdispatch hno env respCap

/-- The same where power is lost inside the frame. -/
theorem frameCut_records (hno : ¬AdminFrame lib d data) (env : FrameEnv) (cut : PowerCut) :
    frameCut lib d env data cut = (d.store, d.radio) := by
  unfold frameCut
  cases hframe : framePlaintext lib d.noise data with
  | none => rfl
  | some p =>
      obtain ⟨d₁, hdispatch⟩ := framePlaintext_iff.mp hframe
      obtain ⟨hram₁, hflash₁, hsame⟩ := hdispatch.same
      have hnone : controllerCandidate d p = none := by
        cases hcandidate : controllerCandidate d p with
        | none => rfl
        | some candidate =>
            exact absurd ⟨p, d₁, hdispatch, candidate_admin (hsame.trans hcandidate)⟩ hno
      have hops : radioOps d env p = [] := by
        rcases radioOps_admin d env p with hnone | ⟨hcmd, hadmin⟩
        · exact hnone
        · have hslot : d₁.noise.noiseAuthenticatedSlot = d.noise.noiseAuthenticatedSlot := by
            obtain ⟨-, -, noise, hopen, rfl⟩ := hdispatch
            obtain ⟨-, -, rfl⟩ := decryptPacket_ok hopen
            rfl
          rw [← hram₁, ← hslot] at hadmin
          exact absurd ⟨p, d₁, hdispatch, .inr (.inr hcmd), adminSession_of_slot hadmin⟩ hno
      show commandCut d env p cut = _
      unfold commandCut
      rw [hnone, hops]
      cases hcut : cut.done <;> cases htorn : cut.torn <;> rfl

/-- What changes a record after a boot is an admin's command. -/
theorem records_change (w : Power) {i : Happening} (hboot : i.isBoot = false) :
    SameRecords w (powerStep lib keys w i) ∨ AdminActs lib w i := by
  refine or_iff_not_imp_right.mpr fun hno => ?_
  cases i with
  | boot seedExec importExec => cases hboot
  | bootCut phase cut => cases hboot
  | frame env data =>
      cases w with
      | off store radio => exact ⟨rfl, rfl, fun d d' hd => by cases hd⟩
      | on d =>
          obtain ⟨hram, hstore, hradio⟩ := frame_records
            (fun hadmin => hno ⟨d, rfl, hadmin⟩) env bridgeTransportResponseMax
          refine ⟨hstore, hradio, fun d₀ d' hd hd' => ?_⟩
          cases hd
          cases hd'
          exact hram
  | frameCut env data cut =>
      cases w with
      | off store radio => exact ⟨rfl, rfl, fun d d' hd => by cases hd⟩
      | on d =>
          have hcut := frameCut_records (fun hadmin => hno ⟨d, rfl, hadmin⟩) env cut
          exact ⟨congrArg Prod.fst hcut, congrArg Prod.snd hcut, fun d d' _ hd' => by cases hd'⟩
  | core call =>
      cases w with
      | off store radio => exact ⟨rfl, rfl, fun d d' hd => by cases hd⟩
      | on d =>
          refine ⟨rfl, rfl, fun d₀ d' hd hd' => ?_⟩
          cases hd
          cases hd'
          rfl
  | powerOff => exact ⟨by cases w <;> rfl, by cases w <;> rfl, fun d d' _ hd' => by cases hd'⟩

-- ============================================================== the operators

/-- A session, if there is one, is an operator's. -/
def OperatorSession (d : Device) : Prop :=
  d.noise.ready = true → ∃ slot : Fin 5, d.noise.authenticatedSlot = slot ∧
    (d.controllers.slots slot).role = controllerRoleOperator

/-- An operator is no admin. -/
theorem OperatorSession.no_admin (h : OperatorSession d) (data : List UInt8) :
    ¬AdminFrame lib d data := by
  rintro ⟨p, d₁, ⟨-, -, noise, hopen, rfl⟩, -, slot', hready, hslot', hadmin⟩
  obtain ⟨-, -, rfl⟩ := decryptPacket_ok hopen
  obtain ⟨slot, hslot, hrole⟩ := h hready
  obtain rfl : slot' = slot := Fin.ext (hslot'.symm.trans hslot)
  rcases hadmin with hadmin | hadmin
  · exact absurd (hrole.symm.trans hadmin) (by decide)
  · exact absurd (hrole.symm.trans hadmin) (by decide)

/-- Whatever an operator's session is sent, it stays one until the next
handshake. -/
theorem operator_frame (h : OperatorSession d) (env : FrameEnv) {data : List UInt8}
    (hguard : OperatorsOnly lib (.on d) (.frame env data)) :
    OperatorSession (commandProcessFrame lib d env data bridgeTransportResponseMax).2 := by
  intro hready
  have hno : ¬AdminFrame lib d data := h.no_admin data
  have hram := (frame_records hno env bridgeTransportResponseMax).1
  rcases frame_cases lib d env data bridgeTransportResponseMax with
    ⟨hframe, -⟩ | ⟨hhandshake, response, hframe⟩ | ⟨p, d₁, hdispatch, hframe⟩
  · rw [hframe] at hready ⊢
    exact h hready
  · rw [hframe] at hready ⊢
    rcases hrespond : noiseIkHandshakeRespond lib d.controllers env.responderEph (data.drop 1)
      (bridgeTransportResponseMax - 1) d.noise with ⟨response', noise⟩
    rw [hrespond] at hready
    dsimp only at hready ⊢
    cases response' with
    | none =>
        have hlen : (data.drop 1).length = noiseIkInitMessageLen := by
          rw [List.length_drop, hhandshake.2]
          omega
        rw [handshakeRespond_failed hlen (by decide) hrespond] at hready
        cases hready
    | some response' =>
        obtain ⟨-, key, ctx₁, slot, role, -, hfind, -, hslot, hrole⟩ := handshakeRespond_ok hrespond
        obtain ⟨-, -, rfl⟩ := controllerStoreFind_ok hfind
        exact ⟨slot, hslot, hrole.symm.trans (hguard hhandshake d _ _ rfl hrespond)⟩
  · rw [hframe] at hready hram ⊢
    obtain ⟨hready', hslot', -⟩ := afterCommand_session hdispatch env bridgeTransportResponseMax
    obtain ⟨slot, hslot, hrole⟩ := h (hready'.symm.trans hready)
    refine ⟨slot, hslot'.trans hslot, ?_⟩
    rw [hram]
    exact hrole

/-- The records are those of a device, on flash and in RAM. -/
structure Settled (d₀ : Device) (w : Power) : Prop where
  store : w.store = d₀.store
  radio : w.radio = d₀.radio
  ram : ∀ d, w = .on d → d.controllers = d₀.controllers ∧ OperatorSession d

/-- A boot of the same flash comes up with the same records. -/
theorem settled_boot {d₀ : Device} {w : Power} (h : Settled d₀ w)
    (hboots : bootExisting d₀.store = .ok d₀.controllers)
    (hneeds : needsImport d₀.controllers = false) (seedExec importExec : FlashExec) :
    Settled d₀ (bootPower lib keys w seedExec importExec) := by
  have hsetup : controllerSetup w.store keys.recoveryAdminPublic keys.authorizedInitiatorPublic
      seedExec importExec = (some d₀.controllers, d₀.store) := by
    rw [h.store]
    exact setup_keep (bootOrSeed_ok hboots _ seedExec) hneeds
  rw [bootPower_on hsetup]
  refine ⟨rfl, h.radio, fun d hd => ?_⟩
  cases hd
  refine ⟨rfl, fun hready => ?_⟩
  exact absurd (hready.symm.trans (bootNoise_ready keys.deviceStaticPrivate)) (by decide)

theorem settled_step {d₀ : Device} {w : Power} (h : Settled d₀ w)
    (hboots : bootExisting d₀.store = .ok d₀.controllers)
    (hneeds : needsImport d₀.controllers = false) {i : Happening}
    (hguard : OperatorsOnly lib w i) : Settled d₀ (powerStep lib keys w i) := by
  cases i with
  | boot seedExec importExec => exact settled_boot h hboots hneeds seedExec importExec
  | bootCut phase cut =>
      have hcut : setupCut w.store keys.recoveryAdminPublic keys.authorizedInitiatorPublic phase cut
          = d₀.store := by
        rw [h.store]
        cases phase with
        | seeding => exact setupCut_booted hboots _ _ cut
        | importing => exact setupCut_keep (bootOrSeed_ok hboots _ .ok) hneeds cut
      exact ⟨hcut, h.radio, fun d hd => by cases hd⟩
  | frame env data =>
      cases w with
      | off store radio => exact h
      | on d =>
          obtain ⟨hram, hoperator⟩ := h.ram d rfl
          obtain ⟨hram', hstore', hradio'⟩ :=
            frame_records (hoperator.no_admin data) env bridgeTransportResponseMax
          refine ⟨hstore'.trans h.store, hradio'.trans h.radio, fun d' hd' => ?_⟩
          cases hd'
          exact ⟨hram'.trans hram, operator_frame hoperator env hguard⟩
  | frameCut env data cut =>
      cases w with
      | off store radio => exact h
      | on d =>
          have hno : ¬AdminFrame lib d data := (h.ram d rfl).2.no_admin data
          have hcut := frameCut_records hno env cut
          exact ⟨(congrArg Prod.fst hcut).trans h.store, (congrArg Prod.snd hcut).trans h.radio,
            fun d' hd' => by cases hd'⟩
  | core call =>
      cases w with
      | off store radio => exact h
      | on d =>
          refine ⟨h.store, h.radio, fun d' hd' => ?_⟩
          cases hd'
          exact h.ram d rfl
  | powerOff => exact ⟨h.store, h.radio, fun d hd => by cases hd⟩

-- ================================================================= slot 0

/-- Whatever boots, and whatever runs, has the slot 0. -/
structure RecoveryKept (slot : ControllerSlot) (w : Power) : Prop where
  boots : ∃ booted, bootExisting w.store = .ok booted
  kept : ∀ booted, bootExisting w.store = .ok booted → booted.slots 0 = slot
  ram : ∀ d, w = .on d → d.controllers.slots 0 = slot ∧ RosterOk d.controllers.slots

/-- No admin change reaches slot 0. -/
theorem Derives.recovery {store store' : ControllerStore} (h : Derives store store') :
    store'.slots 0 = store.slots 0 := by
  cases h with
  | add hadd =>
      obtain ⟨-, -, -, hne, -, rfl⟩ := controllerStoreAdd_ok hadd
      exact rewrite_other _ hne.symm _
  | revoke hrevoke =>
      obtain ⟨i, -, hne, -, rfl⟩ := controllerStoreRevoke_ok hrevoke
      exact rewrite_other _ hne.symm _

/-- An attempt to commit a roster with the same slot 0. -/
theorem Attempted.recovery {flash flash' : StoreFlash} {store : ControllerStore}
    {slot : ControllerSlot} (h : Attempted flash store flash')
    (hboots : ∃ booted, bootExisting flash = .ok booted)
    (hkept : ∀ booted, bootExisting flash = .ok booted → booted.slots 0 = slot)
    (hstore : store.slots 0 = slot) :
    (∃ booted, bootExisting flash' = .ok booted) ∧
      ∀ booted, bootExisting flash' = .ok booted → booted.slots 0 = slot := by
  obtain ⟨current, hcurrent⟩ := hboots
  obtain ⟨booted, hbooted, -⟩ := h.keeps current hcurrent
  refine ⟨⟨booted, hbooted⟩, fun booted' hbooted' => ?_⟩
  rcases h.reads booted' hbooted' with hold | rfl
  · exact hkept booted' hold
  · exact hstore

/-- A boot of bootable flash. -/
theorem setup_recovery {flash : StoreFlash} {booted : ControllerStore}
    (hboot : bootExisting flash = .ok booted) (recovery initiator : Key)
    (seedExec importExec : FlashExec) :
    let r := controllerSetup flash recovery initiator seedExec importExec
    (∃ booted', bootExisting r.2 = .ok booted') ∧
      ∀ booted', bootExisting r.2 = .ok booted' → booted'.slots 0 = booted.slots 0 := by
  have hsame : ∀ booted', bootExisting flash = .ok booted' → booted'.slots 0 = booted.slots 0 := by
    intro booted' hboot'
    rw [hboot] at hboot'
    cases hboot'
    rfl
  have hseed := bootOrSeed_ok hboot recovery seedExec
  cases hneeds : needsImport booted with
  | false =>
      dsimp only
      rw [setup_keep hseed hneeds]
      exact ⟨⟨booted, hboot⟩, hsame⟩
  | true =>
      unfold controllerSetup
      rw [hseed]
      dsimp only
      rw [if_pos hneeds]
      cases hadd : controllerStoreAdd booted 0 initiator controllerRoleAdmin with
      | error e => exact ⟨⟨booted, hboot⟩, hsame⟩
      | ok added =>
          obtain ⟨imported, i⟩ := added
          have hok := rosterOk_add (bootExisting_roster hboot) hadd
          have hkept := (attempted_commit flash hok importExec).recovery ⟨booted, hboot⟩ hsame
            (Derives.add hadd).recovery
          rcases hcommit : controllerStoreFlashCommit flash imported importExec with
            ⟨committed, flash'⟩
          rw [hcommit] at hkept
          dsimp only
          rw [hcommit]
          cases committed with
          | error e => exact hkept
          | ok _ => exact hkept

/-- A boot of such flash that is cut. -/
theorem setupCut_recovery {flash : StoreFlash} {booted : ControllerStore} {recovery initiator : Key}
    {phase : SetupPhase} {cut : PowerCut} (hboot : bootExisting flash = .ok booted)
    (htears : SetupTears flash recovery initiator phase cut) :
    (∃ booted', bootExisting (setupCut flash recovery initiator phase cut) = .ok booted') ∧
      ∀ booted', bootExisting (setupCut flash recovery initiator phase cut) = .ok booted' →
        booted'.slots 0 = booted.slots 0 := by
  have hsame : ∀ booted', bootExisting flash = .ok booted' → booted'.slots 0 = booted.slots 0 := by
    intro booted' hboot'
    rw [hboot] at hboot'
    cases hboot'
    rfl
  cases phase with
  | seeding =>
      rw [setupCut_booted hboot]
      exact ⟨⟨booted, hboot⟩, hsame⟩
  | importing =>
      have hseed := bootOrSeed_ok hboot recovery .ok
      cases hneeds : needsImport booted with
      | false =>
          rw [setupCut_keep hseed hneeds]
          exact ⟨⟨booted, hboot⟩, hsame⟩
      | true =>
          cases hadd : controllerStoreAdd booted 0 initiator controllerRoleAdmin with
          | error e =>
              have hcut : setupCut flash recovery initiator .importing cut = flash := by
                unfold setupCut
                dsimp only
                rw [hseed]
                dsimp only
                rw [if_pos hneeds, hadd]
              rw [hcut]
              exact ⟨⟨booted, hboot⟩, hsame⟩
          | ok added =>
              obtain ⟨imported, i⟩ := added
              have hcommit : setupCommit flash recovery initiator .importing
                  = some (flash, imported) := by
                unfold setupCommit
                dsimp only
                rw [hseed]
                dsimp only
                rw [if_pos hneeds, hadd]
              rw [setupCut_import hseed hneeds hadd]
              have hok := rosterOk_add (bootExisting_roster hboot) hadd
              exact (attempted_commitCut hok (htears flash imported hcommit)).recovery
                ⟨booted, hboot⟩ hsame (Derives.add hadd).recovery

theorem recovery_frame {slot : ControllerSlot} (h : RecoveryKept slot (.on d)) (env : FrameEnv)
    (data : List UInt8) (respCap : Nat) :
    RecoveryKept slot (.on (commandProcessFrame lib d env data respCap).2) := by
  obtain ⟨hslot, hok⟩ := h.ram d rfl
  rcases frame_rosters lib d env data respCap with hsame | ⟨p, d₁, hdispatch, hrosters⟩
  · obtain ⟨hram, hflash⟩ := Prod.mk.inj hsame
    have hstore : (Power.on (commandProcessFrame lib d env data respCap).2).store = d.store :=
      hflash
    refine ⟨hstore ▸ h.boots, hstore ▸ h.kept, fun d' hd' => ?_⟩
    cases hd'
    rw [hram]
    exact ⟨hslot, hok⟩
  · obtain ⟨hram₁, hflash₁, -⟩ := hdispatch.same
    have hram := congrArg Prod.fst hrosters
    have hstore : (Power.on (commandProcessFrame lib d env data respCap).2).store
        = (rosterAfter d₁ env (controllerCandidate d₁ p)).2 := congrArg Prod.snd hrosters
    dsimp only at hram
    cases hcandidate : controllerCandidate d₁ p with
    | none =>
        rw [hcandidate] at hram hstore
        have hstore' := hstore.trans hflash₁
        refine ⟨hstore' ▸ h.boots, hstore' ▸ h.kept, fun d' hd' => ?_⟩
        cases hd'
        rw [hram.trans hram₁]
        exact ⟨hslot, hok⟩
    | some candidate =>
        have hderives := (candidate_spec hcandidate).1
        rw [hram₁] at hderives
        have hok' := hderives.rosterOk hok
        have hslot' := hderives.recovery.trans hslot
        obtain ⟨hattempted, hor⟩ := rosterAfter_spec (d := d₁) hok' env
        rw [hflash₁] at hattempted
        rw [hcandidate] at hram hstore
        obtain ⟨hboots, hkept⟩ := hattempted.recovery h.boots h.kept hslot'
        refine ⟨hstore ▸ hboots, hstore ▸ hkept, fun d' hd' => ?_⟩
        cases hd'
        rw [hram]
        rcases hor with hold | ⟨hnew, -⟩
        · rw [hold, hram₁]
          exact ⟨hslot, hok⟩
        · rw [hnew]
          exact ⟨hslot', hok'⟩

theorem recovery_step {slot : ControllerSlot} {w : Power} (h : RecoveryKept slot w)
    {i : Happening} (htears : CutTears lib keys w i) :
    RecoveryKept slot (powerStep lib keys w i) := by
  obtain ⟨booted, hboot⟩ := h.boots
  have hslot := h.kept booted hboot
  cases i with
  | boot seedExec importExec =>
      obtain ⟨hboots, hkept⟩ := setup_recovery hboot keys.recoveryAdminPublic
        keys.authorizedInitiatorPublic seedExec importExec
      unfold powerStep bootPower
      dsimp only
      rcases hsetup : controllerSetup w.store keys.recoveryAdminPublic
        keys.authorizedInitiatorPublic seedExec importExec with ⟨result, store⟩
      rw [hsetup] at hboots hkept
      rw [hslot] at hkept
      cases result with
      | none => exact ⟨hboots, hkept, fun d hd => by cases hd⟩
      | some controllers =>
          refine ⟨hboots, hkept, fun d hd => ?_⟩
          cases hd
          have hbooted := setup_boots hsetup
          exact ⟨hkept controllers hbooted, bootExisting_roster hbooted⟩
  | bootCut phase cut =>
      obtain ⟨hboots, hkept⟩ := setupCut_recovery hboot htears
      rw [hslot] at hkept
      exact ⟨hboots, hkept, fun d hd => by cases hd⟩
  | frame env data =>
      cases w with
      | off store radio => exact h
      | on d => exact recovery_frame h env data bridgeTransportResponseMax
  | frameCut env data cut =>
      cases w with
      | off store radio => exact h
      | on d =>
          rcases frameCut_cases lib d env data cut with
            hsame | ⟨p, d₁, candidate, hdispatch, hcandidate, hcut⟩
          · have hstore : (powerStep lib keys (.on d) (.frameCut env data cut)).store = d.store :=
              hsame
            exact ⟨hstore ▸ h.boots, hstore ▸ h.kept, fun d hd => by cases hd⟩
          · obtain ⟨hslot, hok⟩ := h.ram d rfl
            have hderives := (candidate_spec hcandidate).1
            rw [hdispatch.same.1] at hderives
            have hattempted := attempted_commitCut (hderives.rosterOk hok)
              (htears d p d₁ candidate rfl hdispatch hcandidate)
            obtain ⟨hboots, hkept⟩ :=
              hattempted.recovery h.boots h.kept (hderives.recovery.trans hslot)
            rw [← hcut] at hboots hkept
            exact ⟨hboots, hkept, fun d hd => by cases hd⟩
  | core call =>
      cases w with
      | off store radio => exact h
      | on d =>
          refine ⟨h.boots, h.kept, fun d' hd' => ?_⟩
          cases hd'
          exact h.ram d rfl
  | powerOff => exact ⟨h.boots, h.kept, fun d hd => by cases hd⟩

-- ================================================================ the runs

/-- Role separation, over every life of a device that has booted. Where
every handshake that succeeds is an operator's, the RAM roster, the
trust store and the radio sector stay what they were. In any life, what
changes one of them between two boots is an admin command, dispatched in
a session whose slot then has an admin role. And slot 0 never changes. -/
theorem role_separation {w : Power} {seedExec importExec : FlashExec} {d₀ : Device}
    (hboot : bootPower lib keys w seedExec importExec = .on d₀) :
    (∀ is, (powerMachine lib keys).StepsMeet (OperatorsOnly lib) (.on d₀) is →
        let w' := (powerMachine lib keys).final (.on d₀) is
        w'.store = d₀.store ∧ w'.radio = d₀.radio ∧
          ∀ d, w' = .on d → d.controllers = d₀.controllers) ∧
      (∀ is i, i.isBoot = false →
        let w' := (powerMachine lib keys).final (.on d₀) is
        SameRecords w' (powerStep lib keys w' i) ∨ AdminActs lib w' i) ∧
      ∀ is, (powerMachine lib keys).StepsMeet (CutTears lib keys) (.on d₀) is →
        let w' := (powerMachine lib keys).final (.on d₀) is
        (∀ booted, bootExisting w'.store = .ok booted →
            booted.slots 0 = d₀.controllers.slots 0) ∧
          ∀ d, w' = .on d → d.controllers.slots 0 = d₀.controllers.slots 0 := by
  unfold bootPower at hboot
  split at hboot
  next controllers store hsetup =>
    cases hboot
    have hboots := setup_boots hsetup
    have hneeds := setup_needsImport hsetup
    refine ⟨fun is hguard => ?_, fun is i hi => records_change _ hi, fun is htears => ?_⟩
    · have hstart : Settled (bootDevice lib keys controllers store w.radio)
          (.on (bootDevice lib keys controllers store w.radio)) := by
        refine ⟨rfl, rfl, fun d hd => ?_⟩
        cases hd
        exact ⟨rfl, fun hready => absurd
          (hready.symm.trans (bootNoise_ready keys.deviceStaticPrivate)) (by decide)⟩
      have hsettled := (powerMachine lib keys).run_inv (G := OperatorsOnly lib)
        (P := fun w' _ => Settled (bootDevice lib keys controllers store w.radio) w')
        (fun w' _ i h hg => settled_step h hboots hneeds hg) is _ [] hstart hguard
      exact ⟨hsettled.store, hsettled.radio, fun d hd => (hsettled.ram d hd).1⟩
    · have hstart : RecoveryKept (controllers.slots 0)
          (.on (bootDevice lib keys controllers store w.radio)) := by
        refine ⟨⟨controllers, hboots⟩, fun booted hbooted => ?_, fun d hd => ?_⟩
        · have heq := hboots.symm.trans hbooted
          cases heq
          rfl
        · cases hd
          exact ⟨rfl, bootExisting_roster hboots⟩
      have hkept := (powerMachine lib keys).run_inv (G := CutTears lib keys)
        (P := fun w' _ => RecoveryKept (controllers.slots 0) w')
        (fun w' _ i h hg => recovery_step h hg) is _ [] hstart htears
      exact ⟨hkept.kept, fun d hd => (hkept.ram d hd).1⟩
  next => cases hboot

/-- The roster after the first boot with an operator in slot 2, in flash. -/
def operatorRoster : ControllerStore :=
  benchProvisioning.imported.rewrite 2 ⟨controllerRoleOperator, toyPublic (tagKey 8)⟩

def operatorFlash : StoreFlash :=
  ⟨controllerStoreEncode operatorRoster, controllerStoreEncode benchProvisioning.imported⟩

def operatorBench : Device :=
  bootDevice (toyCrypto none) benchKeys operatorRoster operatorFlash erasedSector

theorem operator_boots :
    bootPower (toyCrypto none) benchKeys (.off operatorFlash erasedSector) .ok .ok
      = .on operatorBench := by
  have hslot : (controllerStoreAdd benchProvisioning.imported 0 (toyPublic (tagKey 8))
      controllerRoleOperator).toOption.map Prod.snd = some 2 := by decide +kernel
  have hroster : RosterOk operatorRoster.slots := by
    cases hadd : controllerStoreAdd benchProvisioning.imported 0 (toyPublic (tagKey 8))
        controllerRoleOperator with
    | error e =>
        rw [hadd] at hslot
        cases hslot
    | ok added =>
        obtain ⟨candidate, i⟩ := added
        rw [hadd] at hslot
        have hi : i = 2 := Option.some.inj hslot
        subst hi
        have hok := rosterOk_add (imported_rosterOk benchProvisioning) hadd
        obtain ⟨-, -, -, -, -, rfl⟩ := controllerStoreAdd_ok hadd
        exact hok
  have hgen : operatorRoster.generation ≥ benchProvisioning.imported.generation := by
    show (3 : UInt32) ≥ 2
    decide
  have hboot : bootExisting operatorFlash = .ok operatorRoster :=
    boot_first (recordValid_encode ((rosterValid_iff _).mpr hroster))
      (recordValid_imported benchProvisioning) hgen
  have hneeds : needsImport operatorRoster = false := by decide +kernel
  exact bootPower_on (setup_keep (bootOrSeed_ok hboot _ _) hneeds)

/-- An operator's session sends a REVOKE, and the device boots again. -/
theorem role_separation_bench : ∃ hello revoke noise d₁,
    powerStep (toyCrypto none) benchKeys (.on operatorBench) (.frame benchEnv hello)
        = .on { operatorBench with noise := noise } ∧
      noise.authenticatedRole = controllerRoleOperator ∧
      Dispatches (toyCrypto none) { operatorBench with noise := noise } revoke
        [bleCmdControllerRevoke, 1] d₁ ∧
      ((powerMachine (toyCrypto none) benchKeys).final (.on operatorBench)
        [.frame benchEnv hello, .frame benchEnv revoke, .powerOff, .boot .ok .ok]).store
          = operatorFlash := by
  have hfind : controllerStoreFind operatorBench.controllers (toyPublic (tagKey 8))
      = .ok (2, controllerRoleOperator) := by decide +kernel
  have hid : Identity operatorBench.noise (tagKey 1) (toyPublic (tagKey 1)) :=
    ⟨by decide +kernel, by decide +kernel, by decide +kernel⟩
  obtain ⟨hello, host, response, noise, -, hrespond, hstep, -, hrole, hpaired⟩ :=
    bench_answers hid hfind
  obtain ⟨revoke, hnot, hdispatch⟩ := @bench_sends_command host
    { operatorBench with noise := noise } hpaired [bleCmdControllerRevoke, 1] (by decide)
  refine ⟨hello, revoke, noise, _, hstep, hrole, hdispatch, ?_⟩
  have hoperator : (powerMachine (toyCrypto none) benchKeys).StepsMeet
      (OperatorsOnly (toyCrypto none)) (.on operatorBench)
      [.frame benchEnv hello, .frame benchEnv revoke, .powerOff, .boot .ok .ok] := by
    refine ⟨?_, ?_, trivial, trivial, trivial⟩
    · intro _ d response' noise' hd hanswered
      cases hd
      rw [hrespond] at hanswered
      cases hanswered
      exact hrole
    · exact fun h => absurd h hnot
  exact ((role_separation operator_boots).1 _ hoperator).1

end PicoBridge
