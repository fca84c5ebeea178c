/-
Enrolment over the life of a device: whether a key that was added can be
lost through reboots, power cuts and other admins' commits.

# The invariant, for any property of rosters

`Keeps P` says that flash boots a roster, that every roster it can boot
has `P`, and that a running device has `P` in RAM. A commit changes what
boots to one of two rosters (`Attempted`), so a step keeps this as soon as
the one roster that the step may commit has `P` (`Commits`): the roster a
boot imports the first controller into, or the candidate of a command.

# The property

Enrolled, a key fills a slot. ADD fills an unused slot and so another one,
and so does the import; only a REVOKE of the slot itself clears it.
-/
import PicoBridge.Device.Revoke

namespace PicoBridge

open Lib (Machine)

variable (lib : Crypto) (keys : HeaderKeys)

-- =========================================================== the invariant

/-- Whatever boots, and whatever runs, has the property. -/
structure Keeps (P : ControllerStore → Prop) (w : Power) : Prop where
  boots : ∃ booted, bootExisting w.store = .ok booted
  kept : ∀ booted, bootExisting w.store = .ok booted → P booted
  ram : ∀ d, w = .on d → P d.controllers ∧ RosterOk d.controllers.slots

/-- A roster that a step may commit. -/
def Commits (w : Power) (candidate : ControllerStore) : Happening → Prop
  | .boot _ _ | .bootCut _ _ => ∃ booted i, bootExisting w.store = .ok booted ∧
      controllerStoreAdd booted 0 keys.authorizedInitiatorPublic controllerRoleAdmin
        = .ok (candidate, i)
  | .frame _ data | .frameCut _ data _ => ∃ d p d₁, w = .on d ∧ Dispatches lib d data p d₁ ∧
      controllerCandidate d p = some candidate
  | _ => False

variable {lib keys} {P : ControllerStore → Prop} {w : Power} {d : Device}

theorem attempted_keeps {flash flash' : StoreFlash} {store : ControllerStore}
    (h : Attempted flash store flash') (hboots : ∃ booted, bootExisting flash = .ok booted)
    (hkept : ∀ booted, bootExisting flash = .ok booted → P booted) (hstore : P store) :
    (∃ booted, bootExisting flash' = .ok booted) ∧
      ∀ booted, bootExisting flash' = .ok booted → P booted := by
  obtain ⟨current, hcurrent⟩ := hboots
  obtain ⟨booted, hbooted, -⟩ := h.keeps current hcurrent
  refine ⟨⟨booted, hbooted⟩, fun booted' hbooted' => ?_⟩
  rcases h.reads booted' hbooted' with hold | rfl
  · exact hkept booted' hold
  · exact hstore

-- =============================================================== the boots

/-- A boot of flash with a roster leaves flash as it is or attempts to
commit the roster with the first controller imported. -/
theorem setup_attempts {flash : StoreFlash} {booted : ControllerStore}
    (hboot : bootExisting flash = .ok booted) (recovery initiator : Key)
    (seedExec importExec : FlashExec) :
    (controllerSetup flash recovery initiator seedExec importExec).2 = flash ∨
      ∃ imported i, controllerStoreAdd booted 0 initiator controllerRoleAdmin = .ok (imported, i) ∧
        Attempted flash imported
          (controllerSetup flash recovery initiator seedExec importExec).2 := by
  have hseed := bootOrSeed_ok hboot recovery seedExec
  cases hneeds : needsImport booted with
  | false => exact .inl (by rw [setup_keep hseed hneeds])
  | true =>
      unfold controllerSetup
      rw [hseed]
      dsimp only
      rw [if_pos hneeds]
      cases hadd : controllerStoreAdd booted 0 initiator controllerRoleAdmin with
      | error e => exact .inl rfl
      | ok added =>
          obtain ⟨imported, i⟩ := added
          have hok := rosterOk_add (bootExisting_roster hboot) hadd
          have hattempted := attempted_commit flash hok importExec
          refine .inr ⟨imported, i, rfl, ?_⟩
          rcases hcommit : controllerStoreFlashCommit flash imported importExec with
            ⟨committed, flash'⟩
          rw [hcommit] at hattempted
          dsimp only
          rw [hcommit]
          cases committed <;> exact hattempted

/-- The same of a boot that is cut. -/
theorem setupCut_attempts {flash : StoreFlash} {booted : ControllerStore}
    {recovery initiator : Key} {phase : SetupPhase} {cut : PowerCut}
    (hboot : bootExisting flash = .ok booted)
    (htears : SetupTears flash recovery initiator phase cut) :
    setupCut flash recovery initiator phase cut = flash ∨
      ∃ imported i, controllerStoreAdd booted 0 initiator controllerRoleAdmin = .ok (imported, i) ∧
        Attempted flash imported (setupCut flash recovery initiator phase cut) := by
  cases phase with
  | seeding => exact .inl (setupCut_booted hboot recovery initiator cut)
  | importing =>
      have hseed := bootOrSeed_ok hboot recovery .ok
      cases hneeds : needsImport booted with
      | false => exact .inl (setupCut_keep hseed hneeds cut)
      | true =>
          cases hadd : controllerStoreAdd booted 0 initiator controllerRoleAdmin with
          | error e =>
              left
              unfold setupCut
              dsimp only
              rw [hseed]
              dsimp only
              rw [if_pos hneeds, hadd]
          | ok added =>
              obtain ⟨imported, i⟩ := added
              have hcommit : setupCommit flash recovery initiator .importing
                  = some (flash, imported) := by
                unfold setupCommit
                dsimp only
                rw [hseed]
                dsimp only
                rw [if_pos hneeds, hadd]
              have hok := rosterOk_add (bootExisting_roster hboot) hadd
              rw [setupCut_import hseed hneeds hadd]
              exact .inr ⟨imported, i, rfl, attempted_commitCut hok (htears flash imported hcommit)⟩

-- ================================================================ the steps

theorem keeps_frame (h : Keeps P (.on d)) (env : FrameEnv) {data : List UInt8}
    (hcommits : ∀ p d₁ candidate, Dispatches lib d data p d₁ →
      controllerCandidate d p = some candidate → P candidate) (respCap : Nat) :
    Keeps P (.on (commandProcessFrame lib d env data respCap).2) := by
  obtain ⟨hP, hok⟩ := h.ram d rfl
  rcases frame_rosters lib d env data respCap with hsame | ⟨p, d₁, hdispatch, hrosters⟩
  · obtain ⟨hram, hflash⟩ := Prod.mk.inj hsame
    have hstore : (Power.on (commandProcessFrame lib d env data respCap).2).store = d.store :=
      hflash
    refine ⟨hstore ▸ h.boots, hstore ▸ h.kept, fun d' hd' => ?_⟩
    cases hd'
    rw [hram]
    exact ⟨hP, hok⟩
  · obtain ⟨hram₁, hflash₁, hsame⟩ := hdispatch.same
    have hram := congrArg Prod.fst hrosters
    have hstore : (Power.on (commandProcessFrame lib d env data respCap).2).store
        = (rosterAfter d₁ env (controllerCandidate d₁ p)).2 := congrArg Prod.snd hrosters
    dsimp only at hram
    rw [hsame] at hram hstore
    cases hcandidate : controllerCandidate d p with
    | none =>
        rw [hcandidate] at hram hstore
        have hstore' := hstore.trans hflash₁
        refine ⟨hstore' ▸ h.boots, hstore' ▸ h.kept, fun d' hd' => ?_⟩
        cases hd'
        rw [hram.trans hram₁]
        exact ⟨hP, hok⟩
    | some candidate =>
        have hok' := (candidate_spec hcandidate).1.rosterOk hok
        have hP' := hcommits p d₁ candidate hdispatch hcandidate
        obtain ⟨hattempted, hor⟩ := rosterAfter_spec (d := d₁) hok' env
        rw [hflash₁] at hattempted
        rw [hcandidate] at hram hstore
        obtain ⟨hboots, hkept⟩ := attempted_keeps hattempted h.boots h.kept hP'
        refine ⟨hstore ▸ hboots, hstore ▸ hkept, fun d' hd' => ?_⟩
        cases hd'
        rw [hram]
        rcases hor with hold | ⟨hnew, -⟩
        · rw [hold, hram₁]
          exact ⟨hP, hok⟩
        · rw [hnew]
          exact ⟨hP', hok'⟩

/-- A step keeps a property that the roster it may commit has. -/
theorem keeps_step (h : Keeps P w) {i : Happening} (htears : CutTears lib keys w i)
    (hcommits : ∀ candidate, Commits lib keys w candidate i → P candidate) :
    Keeps P (powerStep lib keys w i) := by
  obtain ⟨booted, hboot⟩ := h.boots
  cases i with
  | boot seedExec importExec =>
      have hflash : (∃ booted, bootExisting (controllerSetup w.store keys.recoveryAdminPublic
            keys.authorizedInitiatorPublic seedExec importExec).2 = .ok booted) ∧
          ∀ booted, bootExisting (controllerSetup w.store keys.recoveryAdminPublic
            keys.authorizedInitiatorPublic seedExec importExec).2 = .ok booted → P booted := by
        rcases setup_attempts hboot keys.recoveryAdminPublic keys.authorizedInitiatorPublic
          seedExec importExec with hsame | ⟨imported, i, hadd, hattempted⟩
        · rw [hsame]
          exact ⟨h.boots, h.kept⟩
        · exact attempted_keeps hattempted h.boots h.kept
            (hcommits imported ⟨booted, i, hboot, hadd⟩)
      unfold powerStep bootPower
      dsimp only
      rcases hsetup : controllerSetup w.store keys.recoveryAdminPublic
        keys.authorizedInitiatorPublic seedExec importExec with ⟨result, store⟩
      rw [hsetup] at hflash
      cases result with
      | none => exact ⟨hflash.1, hflash.2, fun d hd => by cases hd⟩
      | some controllers =>
          refine ⟨hflash.1, hflash.2, fun d hd => ?_⟩
          cases hd
          have hbooted := setup_boots hsetup
          exact ⟨hflash.2 controllers hbooted, bootExisting_roster hbooted⟩
  | bootCut phase cut =>
      rcases setupCut_attempts hboot htears with hsame | ⟨imported, i, hadd, hattempted⟩
      · have hstore : (powerStep lib keys w (.bootCut phase cut)).store = w.store := hsame
        exact ⟨hstore ▸ h.boots, hstore ▸ h.kept, fun d hd => by cases hd⟩
      · obtain ⟨hboots, hkept⟩ := attempted_keeps hattempted h.boots h.kept
          (hcommits imported ⟨booted, i, hboot, hadd⟩)
        exact ⟨hboots, hkept, fun d hd => by cases hd⟩
  | frame env data =>
      cases w with
      | off store radio => exact h
      | on d =>
          exact keeps_frame h env (fun p d₁ candidate hdispatch hcandidate =>
            hcommits candidate ⟨d, p, d₁, rfl, hdispatch, hcandidate⟩) bridgeTransportResponseMax
  | frameCut env data cut =>
      cases w with
      | off store radio => exact h
      | on d =>
          rcases frameCut_cases lib d env data cut with
            hsame | ⟨p, d₁, candidate, hdispatch, hcandidate, hcut⟩
          · have hstore : (powerStep lib keys (.on d) (.frameCut env data cut)).store = d.store :=
              hsame
            exact ⟨hstore ▸ h.boots, hstore ▸ h.kept, fun d hd => by cases hd⟩
          · obtain ⟨-, hok⟩ := h.ram d rfl
            have hattempted := htears d p d₁ candidate rfl hdispatch hcandidate
            rw [hdispatch.same.2.2] at hcandidate
            have hok' := (candidate_spec hcandidate).1.rosterOk hok
            obtain ⟨hboots, hkept⟩ := attempted_keeps (attempted_commitCut hok' hattempted) h.boots
              h.kept (hcommits candidate ⟨d, p, d₁, rfl, hdispatch, hcandidate⟩)
            rw [← hcut] at hboots hkept
            exact ⟨hboots, hkept, fun d hd => by cases hd⟩
  | core call =>
      cases w with
      | off store radio => exact h
      | on d =>
          refine ⟨h.boots, h.kept, fun d' hd' => ?_⟩
          cases hd'
          exact h.ram d rfl
  | powerOff => exact ⟨h.boots, h.kept, fun d hd => by cases hd⟩

-- ========================================================= a key in its slot

variable (lib) in
/-- A frame, cut or not, with an admin's REVOKE of the slot, up to its
commit. -/
def RevokesSlot (slot : Fin 5) (w : Power) : Happening → Prop
  | .frame _ data | .frameCut _ data _ => ∃ d p d₁ candidate, w = .on d ∧
      Dispatches lib d data p d₁ ∧ byteOf p 0 = bleCmdControllerRevoke ∧
      (byteOf p 1).toNat = slot ∧ revokeCandidate d p = .ok candidate
  | _ => False

variable (lib) in
/-- A frame with a CONTROLLER_ADD that returns OK. -/
def Enrols (d : Device) (env : FrameEnv) (data : List UInt8) (role : UInt8) (key : Key) : Prop :=
  ∃ p d₁, Dispatches lib d data p d₁ ∧ byteOf p 0 = bleCmdControllerAdd ∧ byteOf p 1 = role ∧
    keyAt p 2 = key ∧ (bleHandleControllerAdd d₁ env p).1 = .ok

/-- A used slot is not the one that ADD fills. -/
theorem add_keeps_slot {store store' : ControllerStore} {callerSlot : Nat} {key : Key}
    {role : UInt8} {i slot : Fin 5} (h : controllerStoreAdd store callerSlot key role
      = .ok (store', i)) (hused : (store.slots slot).used) :
    store'.slots slot = store.slots slot := by
  obtain ⟨-, -, -, -, hfree, rfl⟩ := controllerStoreAdd_ok h
  refine rewrite_other store (fun heq => ?_) _
  rw [heq] at hused
  exact hfree hused

/-- What a step may commit leaves a used slot that it does not revoke. -/
theorem commits_slot {slot : Fin 5} {content : ControllerSlot} (hused : content.used)
    (h : Keeps (fun store => store.slots slot = content) w) {i : Happening}
    (hnot : ¬RevokesSlot lib slot w i) {candidate : ControllerStore}
    (hcommits : Commits lib keys w candidate i) : candidate.slots slot = content := by
  have hcommand : ∀ {d : Device} {p : List UInt8}, w = .on d →
      controllerCandidate d p = some candidate →
      (∀ revoked, byteOf p 0 = bleCmdControllerRevoke → (byteOf p 1).toNat = slot →
        revokeCandidate d p ≠ .ok revoked) → candidate.slots slot = content := by
    intro d p hon hcandidate hother
    obtain ⟨hslot, -⟩ := h.ram d hon
    unfold controllerCandidate at hcandidate
    split at hcandidate
    next =>
      obtain ⟨added, hadd⟩ : ∃ added, addCandidate d p = .ok added := by
        cases hadd : addCandidate d p with
        | error st =>
            rw [hadd] at hcandidate
            cases hcandidate
        | ok added => exact ⟨added, rfl⟩
      rw [hadd] at hcandidate
      cases hcandidate
      obtain ⟨-, i, hstore⟩ := addCandidate_ok hadd
      exact (add_keeps_slot hstore (by rw [hslot]; exact hused)).trans hslot
    next =>
      split at hcandidate
      next hcmd =>
        cases hrevoke : revokeCandidate d p with
        | error st =>
            rw [hrevoke] at hcandidate
            cases hcandidate
        | ok revoked =>
            rw [hrevoke] at hcandidate
            cases hcandidate
            obtain ⟨-, -, hstore⟩ := revokeCandidate_ok hrevoke
            obtain ⟨i, hi, -, -, rfl⟩ := controllerStoreRevoke_ok hstore
            refine (rewrite_other _ (fun heq => ?_) _).trans hslot
            exact hother _ hcmd (by rw [← hi, heq]) hrevoke
      next => cases hcandidate
  cases i with
  | boot seedExec importExec =>
      obtain ⟨booted, j, hboot, hadd⟩ := hcommits
      have hslot := h.kept booted hboot
      exact (add_keeps_slot hadd (by rw [hslot]; exact hused)).trans hslot
  | bootCut phase cut =>
      obtain ⟨booted, j, hboot, hadd⟩ := hcommits
      have hslot := h.kept booted hboot
      exact (add_keeps_slot hadd (by rw [hslot]; exact hused)).trans hslot
  | frame env data =>
      obtain ⟨d, p, d₁, hon, hdispatch, hcandidate⟩ := hcommits
      exact hcommand hon hcandidate fun revoked hcmd hslot hrevoke =>
        hnot ⟨d, p, d₁, revoked, hon, hdispatch, hcmd, hslot, hrevoke⟩
  | frameCut env data cut =>
      obtain ⟨d, p, d₁, hon, hdispatch, hcandidate⟩ := hcommits
      exact hcommand hon hcandidate fun revoked hcmd hslot hrevoke =>
        hnot ⟨d, p, d₁, revoked, hon, hdispatch, hcmd, hslot, hrevoke⟩
  | core call => exact hcommits.elim
  | powerOff => exact hcommits.elim

/-- A roster that passes its checks finds a key in its slot. -/
theorem find_in_slot {store : ControllerStore} (hok : RosterOk store.slots) {slot : Fin 5}
    {role : UInt8} {key : Key} (hslot : store.slots slot = ⟨role, key⟩)
    (hused : (store.slots slot).used) : controllerStoreFind store key = .ok (slot, role) := by
  have hkey : (store.slots slot).publicKey = key := by rw [hslot]
  obtain ⟨⟨i, found⟩, hfind⟩ := controllerStoreFind_isOk.mpr ⟨slot, hused, hkey⟩
  obtain ⟨hi, hkey', hrole⟩ := controllerStoreFind_ok hfind
  obtain rfl : i = slot := hok.distinct i slot hi hused (hkey'.trans hkey.symm)
  rw [hfind, hrole, hslot]

-- ============================================================= the enrolment

/-- A refusal is no OK. -/
theorem addCandidate_error {p : List UInt8} {st : BridgeStatus}
    (h : addCandidate d p = .error st) : st ≠ .ok := by
  unfold addCandidate at h
  split at h
  next =>
    cases h
    decide
  next =>
    split at h
    next =>
      cases h
      decide
    next =>
      split at h
      next =>
        split at h <;> cases h <;> decide
      next => cases h

/-- An ADD that returns OK committed its candidate. -/
theorem add_ok {env : FrameEnv} {p : List UInt8} (h : (bleHandleControllerAdd d env p).1 = .ok) :
    ∃ candidate flash, addCandidate d p = .ok candidate ∧
      controllerStoreFlashCommit d.store candidate env.storeExec = (.ok (), flash) := by
  unfold bleHandleControllerAdd at h
  cases hadd : addCandidate d p with
  | error st =>
      rw [hadd] at h
      exact absurd h (addCandidate_error hadd)
  | ok candidate =>
      rw [hadd] at h
      unfold commitCandidate at h
      rcases hcommit : controllerStoreFlashCommit d.store candidate env.storeExec with
        ⟨result, flash⟩
      dsimp only at h
      rw [hcommit] at h
      cases result with
      | error e => cases h
      | ok _ => exact ⟨candidate, flash, rfl, hcommit⟩

/-- An ADD whose candidate is committed returns OK. -/
theorem add_returns {env : FrameEnv} {p : List UInt8} {candidate : ControllerStore}
    {flash : StoreFlash} (h : addCandidate d p = .ok candidate)
    (hcommit : controllerStoreFlashCommit d.store candidate env.storeExec = (.ok (), flash)) :
    (bleHandleControllerAdd d env p).1 = .ok := by
  unfold bleHandleControllerAdd commitCandidate
  rw [h]
  dsimp only
  rw [hcommit]

/-- The candidate an admin's ADD makes. -/
theorem addCandidate_returns {p : List UInt8} {candidate : ControllerStore} {callerSlot : Nat}
    {key : Key} {role : UInt8} {i : Fin 5} (hlen : p.length = 34)
    (hcaller : d.noise.noiseAuthenticatedSlot = callerSlot)
    (hadmin : controllerStoreIsAdmin d.controllers callerSlot = true) (hrole : byteOf p 1 = role)
    (hkey : keyAt p 2 = key)
    (h : controllerStoreAdd d.controllers callerSlot key role = .ok (candidate, i)) :
    addCandidate d p = .ok candidate := by
  obtain ⟨-, hknown, -⟩ := controllerStoreAdd_ok h
  unfold addCandidate
  rw [hcaller, hadmin, hrole, hkey, if_neg (by simp [hlen]),
    if_neg fun hno => hknown.elim hno.1 hno.2, h]

/-- What an ADD that returns OK leaves: the key in a slot that was free,
in RAM and in what boots. -/
theorem enrolled_frame {env : FrameEnv} {data : List UInt8} {role : UInt8} {key : Key}
    (h : Sound (.on d)) (henrol : Enrols lib d env data role key) (respCap : Nat) :
    ∃ slot, ¬(d.controllers.slots slot).used ∧
      (commandProcessFrame lib d env data respCap).2.controllers
        = d.controllers.rewrite slot ⟨role, key⟩ ∧
      (⟨role, key⟩ : ControllerSlot).used ∧
      Keeps (fun store => store.slots slot = ⟨role, key⟩)
        (.on (commandProcessFrame lib d env data respCap).2) := by
  obtain ⟨-, hok, -⟩ := h
  obtain ⟨p, d₁, hdispatch, hcmd, rfl, rfl, hstatus⟩ := henrol
  obtain ⟨hram₁, hflash₁, -⟩ := hdispatch.same
  obtain ⟨candidate, flash, hadd, hcommit⟩ := add_ok hstatus
  have hcandidate : controllerCandidate d₁ p = some candidate := by
    unfold controllerCandidate
    rw [if_pos hcmd, hadd]
    rfl
  have hrosters := afterCommand_rosters lib d₁ env p respCap
  have hafter : rosterAfter d₁ env (some candidate) = (candidate, flash) := by
    unfold rosterAfter
    dsimp only
    rw [hcommit]
  dsimp only at hrosters
  rw [hcandidate, hafter, ← frame_dispatched hdispatch env respCap] at hrosters
  have hram : (commandProcessFrame lib d env data respCap).2.controllers = candidate :=
    congrArg Prod.fst hrosters
  have hflash : (commandProcessFrame lib d env data respCap).2.store = flash :=
    congrArg Prod.snd hrosters
  obtain ⟨-, i, hstore⟩ := addCandidate_ok hadd
  rw [hram₁] at hstore
  have hok' := rosterOk_add hok hstore
  have hbooted : bootExisting (commandProcessFrame lib d env data respCap).2.store
      = .ok candidate := by
    rw [hflash]
    exact commit_boots hok' hcommit
  obtain ⟨hkey, hrole, -, hi, hfree, rfl⟩ := controllerStoreAdd_ok hstore
  have hused : (⟨byteOf p 1, keyAt p 2⟩ : ControllerSlot).used := by
    show byteOf p 1 ≠ controllerRoleNone
    rcases hrole with hrole | hrole <;> rw [hrole] <;> decide
  refine ⟨i, hfree, hram, hused, ⟨_, hbooted⟩, fun booted hboot => ?_, fun d' hd' => ?_⟩
  · have hboot : bootExisting (commandProcessFrame lib d env data respCap).2.store
        = .ok booted := hboot
    rw [hbooted] at hboot
    cases hboot
    exact rewrite_self _ _ _
  · cases hd'
    rw [hram]
    exact ⟨rewrite_self _ _ _, hok'⟩

/-- Enrolment is effective and lasting. From flash as it is delivered,
after any life, when an ADD returns OK: the key has a slot that was free,
the other slots are as they were, and from then on, whatever happens, a
running device finds the key in that slot under its role, and so does
whatever boots, until a REVOKE of that slot. -/
theorem enrolled_stays_in (keys : HeaderKeys) (radio : Sector) {before : List Happening}
    (hbefore : (powerMachine lib keys).StepsMeet (CutTears lib keys) (.off erasedFlash radio)
      before)
    {d : Device} (hd : (powerMachine lib keys).final (.off erasedFlash radio) before = .on d)
    {env : FrameEnv} {data : List UInt8} {role : UInt8} {key : Key}
    (henrol : Enrols lib d env data role key) :
    let d' := (commandProcessFrame lib d env data bridgeTransportResponseMax).2
    ∃ slot, ¬(d.controllers.slots slot).used ∧
      (∀ other, other ≠ slot → d'.controllers.slots other = d.controllers.slots other) ∧
      ∀ after, (powerMachine lib keys).StepsMeet
          (fun w i => CutTears lib keys w i ∧ ¬RevokesSlot lib slot w i) (.on d') after →
        let w := (powerMachine lib keys).final (.on d') after
        (∀ d'', w = .on d'' → controllerStoreFind d''.controllers key = .ok (slot, role)) ∧
          ∃ booted, bootExisting w.store = .ok booted ∧
            controllerStoreFind booted key = .ok (slot, role) := by
  intro d'
  have hsound : Sound (.on d) := by
    have hstart : Sound (.off erasedFlash radio) := counted_erased
    have := (powerMachine lib keys).run_inv (G := CutTears lib keys) (P := fun w _ => Sound w)
      (fun w _ i hw htears => sound_step hw htears) before _ [] hstart hbefore
    rwa [hd] at this
  obtain ⟨slot, hfree, hram, hused, hkeeps⟩ :=
    enrolled_frame hsound henrol bridgeTransportResponseMax
  refine ⟨slot, hfree, fun other hother => ?_, fun after hafter => ?_⟩
  · rw [hram]
    exact rewrite_other _ hother _
  · have hend := (powerMachine lib keys).run_inv
      (P := fun w _ => Keeps (fun store => store.slots slot = ⟨role, key⟩) w)
      (fun w _ i hw hguard => keeps_step hw hguard.1
        fun candidate hcommits => commits_slot hused hw hguard.2 hcommits) after _ [] hkeeps hafter
    have hfind : ∀ {store : ControllerStore}, RosterOk store.slots →
        store.slots slot = ⟨role, key⟩ → controllerStoreFind store key = .ok (slot, role) :=
      fun hok hslot => find_in_slot hok hslot (by rw [hslot]; exact hused)
    refine ⟨fun d'' hd'' => ?_, ?_⟩
    · obtain ⟨hslot, hok⟩ := hend.ram d'' hd''
      exact hfind hok hslot
    · obtain ⟨booted, hbooted⟩ := hend.boots
      exact ⟨booted, hbooted, hfind (bootExisting_roster hbooted) (hend.kept booted hbooted)⟩

-- ============================================================== one life

/-- A roster that an ADD makes of the one after the first boot, committed. -/
theorem bench_joined {candidate : ControllerStore} {key : Key} {role : UInt8} {i : Fin 5}
    (h : controllerStoreAdd benchProvisioning.imported 0 key role = .ok (candidate, i)) :
    ∃ flash, controllerStoreFlashCommit benchFlash candidate .ok = (.ok (), flash) := by
  have hok := rosterOk_add (imported_rosterOk benchProvisioning) h
  have hrecord := recordValid_encode ((rosterValid_iff _).mpr hok)
  obtain ⟨-, -, -, -, -, rfl⟩ := controllerStoreAdd_ok h
  have hgen : (benchProvisioning.imported.rewrite i ⟨role, key⟩).generation = 3 := rfl
  have hne : benchProvisioning.imported.generation
      ≠ (benchProvisioning.imported.rewrite i ⟨role, key⟩).generation := by
    rw [hgen]
    show (2 : UInt32) ≠ 3
    decide
  have hold : benchProvisioning.seed.generation ≠ benchProvisioning.imported.generation := by
    show (1 : UInt32) ≠ 2
    decide
  have hge : (benchProvisioning.imported.rewrite i ⟨role, key⟩).generation
      ≥ benchProvisioning.imported.generation := by
    rw [hgen]
    show (3 : UInt32) ≥ 2
    decide
  exact ⟨_, commit_ok
    (commitTarget_a (boot_imported benchProvisioning) (recordValid_seed benchProvisioning) hne hold)
    rfl (boot_first hrecord (recordValid_imported benchProvisioning) hge)⟩

/-- ADD of an operator. -/
def addFrame : List UInt8 :=
  bleCmdControllerAdd :: controllerRoleOperator :: (toyPublic (tagKey 8)).toList

/-- The recovery admin's session enrols it. -/
theorem bench_enrols {host : NoiseIKInitiator} {noise : NoiseIkCtx} (hpaired : Paired host noise)
    (hslot : noise.authenticatedSlot = 0) :
    ∃ data, Enrols (toyCrypto none) { bootedBench with noise := noise } benchEnv data
      controllerRoleOperator (toyPublic (tagKey 8)) := by
  obtain ⟨data, -, hdispatch⟩ := @bench_sends_command host { bootedBench with noise := noise }
    hpaired addFrame (by decide +kernel)
  refine ⟨data, _, _, hdispatch, rfl, rfl, by decide +kernel, ?_⟩
  have hadmin : controllerStoreIsAdmin benchProvisioning.imported 0 = true := by
    decide +kernel
  have hcaller : ({ noise with receiveNonce := noise.receiveNonce + 1 } :
      NoiseIkCtx).noiseAuthenticatedSlot = 0 := by
    rw [NoiseIkCtx.noiseAuthenticatedSlot, hpaired.ready, if_pos rfl, hslot]
  have hkey : keyAt addFrame 2 = toyPublic (tagKey 8) := by decide +kernel
  have hadded : (controllerStoreAdd benchProvisioning.imported 0 (toyPublic (tagKey 8))
      controllerRoleOperator).isOk = true := by decide +kernel
  cases hadd : controllerStoreAdd benchProvisioning.imported 0 (toyPublic (tagKey 8))
      controllerRoleOperator with
  | error e =>
      rw [hadd] at hadded
      cases hadded
  | ok added =>
      obtain ⟨flash, hcommit⟩ := bench_joined hadd
      exact add_returns (addCandidate_returns (by decide +kernel) hcaller hadmin rfl hkey hadd)
        hcommit

/-- The operator is found after the next boot. -/
theorem enrolled_stays_in_bench : ∃ d env data,
    Enrols (toyCrypto none) d env data controllerRoleOperator (toyPublic (tagKey 8)) ∧
      ∃ slot booted, bootExisting ((powerMachine (toyCrypto none) benchKeys).final
          (.on (commandProcessFrame (toyCrypto none) d env data bridgeTransportResponseMax).2)
          [.powerOff, .boot .ok .ok]).store = .ok booted ∧
        controllerStoreFind booted (toyPublic (tagKey 8)) = .ok (slot, controllerRoleOperator) := by
  obtain ⟨first, host, noise, hstep, hslot, hpaired⟩ := bench_session
  obtain ⟨data, henrols⟩ := bench_enrols hpaired hslot
  have hboot : ((powerMachine (toyCrypto none) benchKeys).step (.off erasedFlash erasedSector)
      (.boot .ok .ok)).1 = .on bootedBench := by
    rw [powerMachine_boot, bench_boots]
  have hfinal : (powerMachine (toyCrypto none) benchKeys).final (.off erasedFlash erasedSector)
      [.boot .ok .ok, .frame benchEnv first] = .on { bootedBench with noise := noise } := by
    rw [Machine.final_cons, hboot, Machine.final_cons, Machine.final_nil]
    exact hstep
  have htears : (powerMachine (toyCrypto none) benchKeys).StepsMeet
      (CutTears (toyCrypto none) benchKeys) (.off erasedFlash erasedSector)
      [.boot .ok .ok, .frame benchEnv first] := ⟨trivial, trivial, trivial⟩
  obtain ⟨slot, -, -, hafter⟩ := enrolled_stays_in benchKeys erasedSector htears hfinal henrols
  obtain ⟨-, booted, hbooted, hfind⟩ :=
    hafter [.powerOff, .boot .ok .ok] ⟨⟨trivial, id⟩, ⟨trivial, id⟩, trivial⟩
  exact ⟨_, benchEnv, data, henrols, slot, booted, hbooted, hfind⟩

end PicoBridge
