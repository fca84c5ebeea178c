/-
What boots after any number of commits, power cuts and boots.

# The argument

Whatever happens to a commit (it is refused, fails, is cut or runs to its
end), what boots afterwards booted before or is the roster that was being
committed, and a generation that booted never goes back (`Attempted`).
Both invariants of the reboots come from that: the booted roster is
counted from 1 (`Counted`), and once a key is gone from a roster past the
first generation it stays gone as long as nobody commits it again
(`Barred`). A boot of a barred flash writes nothing, since the import of
`controller_setup` runs in generation 1 only.
-/
import PicoBridge.Store.FirstBoot

namespace PicoBridge

open Lib.NorFlash (Op run cutImage)

-- ================================================ a commit, however it fares

/-- What an attempt to commit `store` makes of what boots. -/
structure Attempted (flash : StoreFlash) (store : ControllerStore) (flash' : StoreFlash) :
    Prop where
  reads : ∀ booted, bootExisting flash' = .ok booted →
    bootExisting flash = .ok booted ∨ booted = store
  keeps : ∀ current, bootExisting flash = .ok current →
    ∃ booted, bootExisting flash' = .ok booted ∧ current.generation ≤ booted.generation

theorem Attempted.refl (flash : StoreFlash) (store : ControllerStore) :
    Attempted flash store flash where
  reads _ h := .inl h
  keeps current h := ⟨current, h, UInt32.le_refl _⟩

theorem Boots.attempted {flash flash' : StoreFlash} {current store : ControllerStore}
    (hboot : bootExisting flash = .ok current) (h : Boots flash' current store) :
    Attempted flash store flash' := by
  obtain ⟨booted, hbooted, hle, hor⟩ := h
  refine ⟨fun booted' hbooted' => ?_, fun current' hcurrent' => ?_⟩
  · rw [hbooted] at hbooted'
    cases hbooted'
    rcases hor with rfl | rfl
    · exact .inl hboot
    · exact .inr rfl
  · rw [hboot] at hcurrent'
    cases hcurrent'
    exact ⟨booted, hbooted, hle⟩

/-- Flash that does not boot holds no record. -/
theorem recordValid_of_unbootable {flash : StoreFlash} {e : ControllerStoreError}
    (hboot : bootExisting flash = .error e) (name : SectorName) :
    recordValid (some (flash.get name)) = none := by
  cases h : recordValid (some (flash.get name)) with
  | none => rfl
  | some store =>
      obtain ⟨store', hstore', -⟩ := bootExisting_of_valid h
      rw [hboot] at hstore'
      cases hstore'

/-- Writing one sector of such flash, with no record or with the new one. -/
theorem attempted_first {flash : StoreFlash} {store : ControllerStore} {e : ControllerStoreError}
    (hboot : bootExisting flash = .error e) (target : SectorName) {data : Sector}
    (hdata : recordValid (some data) = none ∨ recordValid (some data) = some store) :
    Attempted flash store (flash.set target data) := by
  refine ⟨fun booted hbooted => .inr ?_, fun current hcurrent => ?_⟩
  · obtain ⟨name, hname⟩ := bootExisting_ok hbooted
    by_cases htarget : name = target
    · rw [htarget, StoreFlash.get_set] at hname
      rcases hdata with hnone | hsome
      · rw [hnone] at hname
        cases hname
      · rw [hsome] at hname
        exact (Option.some.inj hname).symm
    · have hother : name = target.other := by
        cases name <;> cases target <;> first | rfl | exact absurd rfl htarget
      rw [hother, StoreFlash.get_set_other, recordValid_of_unbootable hboot] at hname
      cases hname
  · rw [hboot] at hcurrent
    cases hcurrent

variable {flash : StoreFlash} {store : ControllerStore}

/-- A commit that is not cut. -/
theorem attempted_commit (flash : StoreFlash) (hstore : RosterOk store.slots)
    (exec : FlashExec) : Attempted flash store (controllerStoreFlashCommit flash store exec).2 := by
  cases hboot : bootExisting flash with
  | ok current => exact (boots_commit hboot hstore exec).1.attempted hboot
  | error e =>
      have hrecord := recordValid_encode ((rosterValid_iff _).mpr hstore)
      have hprogram : Attempted flash store (programSector flash .a store) := by
        rw [programSector, programSector_run]
        exact attempted_first hboot .a (.inr hrecord)
      unfold controllerStoreFlashCommit
      rw [commitTarget_first hboot]
      dsimp only
      split
      next ran =>
        cases ran with
        | true => exact hprogram
        | false => exact .refl flash store
      next => split <;> exact hprogram

/-- A commit that power cuts. -/
theorem attempted_commitCut (hstore : RosterOk store.slots) {cut : PowerCut}
    (htears : EraseTears flash store cut) :
    Attempted flash store (commitCut flash store cut) := by
  cases hboot : bootExisting flash with
  | ok current => exact (boots_commitCut hboot hstore htears).attempted hboot
  | error e =>
      have hrecord := recordValid_encode ((rosterValid_iff _).mpr hstore)
      have htarget := commitTarget_first hboot store
      unfold commitCut
      rw [htarget]
      dsimp only
      rcases cutImage_cases store cut (flash.get .a) with
        ⟨-, -, himage⟩ | ⟨hdone, htorn⟩ | hnone | himage
      · rw [himage, StoreFlash.set_get]
        exact .refl flash store
      · rcases htears hdone _ htorn with hnone | hold
        · exact attempted_first hboot .a (.inl hnone)
        · rw [hold .a htarget, StoreFlash.set_get]
          exact .refl flash store
      · exact attempted_first hboot .a (.inl hnone)
      · rw [himage]
        exact attempted_first hboot .a (.inr hrecord)

/-- A commit that returns OK has its roster booted. -/
theorem commit_boots (hstore : RosterOk store.slots) {exec : FlashExec} {flash' : StoreFlash}
    (h : controllerStoreFlashCommit flash store exec = (.ok (), flash')) :
    bootExisting flash' = .ok store := by
  have hattempted := attempted_commit flash hstore exec
  cases hboot : bootExisting flash with
  | ok current =>
      have hok := (boots_commit hboot hstore exec).2 (congrArg Prod.fst h)
      rw [h] at hok
      exact hok.1
  | error e =>
      rw [h] at hattempted
      -- the verification read back a roster, and only the new one can be there
      unfold controllerStoreFlashCommit at h
      rw [commitTarget_first hboot] at h
      dsimp only at h
      split at h
      next => cases h
      next =>
        split at h
        next verified hverified =>
          have hflash : programSector flash .a store = flash' := (Prod.mk.inj h).2
          rw [hflash] at hverified
          rcases hattempted.reads verified hverified with hold | hnew
          · rw [hboot] at hold
            cases hold
          · rw [hverified, hnew]
        next => cases h

/-- A commit that reports an error, having written the whole sector or
nothing, leaves what boots. -/
theorem commit_error_keeps {current : ControllerStore} {exec : FlashExec}
    {e : ControllerStoreError} {flash' : StoreFlash} (hboot : bootExisting flash = .ok current)
    (hstore : RosterOk store.slots) (hexec : exec ≠ .failed true)
    (h : controllerStoreFlashCommit flash store exec = (.error e, flash')) :
    bootExisting flash' = .ok current := by
  have hboots := (boots_commit hboot hstore exec).1
  rw [h] at hboots
  obtain ⟨booted, hbooted, -, hor⟩ := hboots
  unfold controllerStoreFlashCommit at h
  split at h
  next =>
    cases h
    exact hboot
  next target _ =>
    split at h
    next ran =>
      cases ran with
      | true => exact absurd rfl hexec
      | false =>
          cases h
          exact hboot
    next =>
      split at h
      next verified hverified =>
        have hflash : programSector flash target store = flash' := (Prod.mk.inj h).2
        rw [hflash, hbooted] at hverified
        cases hverified
        rcases hor with rfl | rfl
        · exact hbooted
        · -- the new roster was read back, so the commit returned OK
          cases (if_pos rfl).symm.trans (Prod.mk.inj h).1
      next hunbootable =>
        have hflash : programSector flash target store = flash' := (Prod.mk.inj h).2
        rw [hflash, hbooted] at hunbootable
        cases hunbootable

-- ========================================================== the invariants

/-- What boots is counted from 1. -/
def Counted (flash : StoreFlash) : Prop :=
  ∀ booted, bootExisting flash = .ok booted → 1 ≤ booted.generation

/-- What boots does not list `key`, and is past the first generation. -/
def Barred (key : Key) (flash : StoreFlash) : Prop :=
  ∃ booted, bootExisting flash = .ok booted ∧ 2 ≤ booted.generation ∧ ¬booted.Enrolled key

theorem counted_erased : Counted erasedFlash := by
  intro booted hbooted
  rw [boot_erased] at hbooted
  cases hbooted

theorem Attempted.counted {flash' : StoreFlash} (h : Attempted flash store flash')
    (hflash : Counted flash)
    (hfirst : ∀ e, bootExisting flash = .error e → 1 ≤ store.generation) : Counted flash' := by
  intro booted hbooted
  cases hboot : bootExisting flash with
  | ok current =>
      obtain ⟨booted', hbooted', hle⟩ := h.keeps current hboot
      rw [hbooted] at hbooted'
      cases hbooted'
      exact UInt32.le_trans (hflash current hboot) hle
  | error e =>
      rcases h.reads booted hbooted with hold | rfl
      · rw [hboot] at hold
        cases hold
      · exact hfirst e hboot

theorem Attempted.barred {flash' : StoreFlash} {key : Key} (h : Attempted flash store flash')
    (hflash : Barred key flash) (hstore : ¬store.Enrolled key) : Barred key flash' := by
  obtain ⟨current, hboot, hgen, hkey⟩ := hflash
  obtain ⟨booted, hbooted, hle⟩ := h.keeps current hboot
  refine ⟨booted, hbooted, UInt32.le_trans hgen hle, ?_⟩
  rcases h.reads booted hbooted with hold | rfl
  · rw [hboot] at hold
    cases hold
    exact hkey
  · exact hstore

-- ============================================================ the boot path

variable {recovery initiator : Key}

theorem initialise_eq_ok (h : controllerStoreInitialise recovery = .ok store) :
    recovery ≠ zeroKey ∧ store = seededStore recovery := by
  unfold controllerStoreInitialise at h
  split at h
  next => cases h
  next hzero =>
    cases h
    exact ⟨fun heq => hzero ((keyIsZero_iff _).mpr heq), rfl⟩

/-- `controller_store_flash_boot_or_seed` returns what flash now boots. -/
theorem bootOrSeed_boots {flash' : StoreFlash} {exec : FlashExec}
    (h : controllerStoreFlashBootOrSeed flash recovery exec = (.ok store, flash')) :
    bootExisting flash' = .ok store := by
  unfold controllerStoreFlashBootOrSeed at h
  cases hboot : bootExisting flash with
  | ok current =>
      rw [hboot] at h
      cases h
      exact hboot
  | error e =>
      rw [hboot] at h
      dsimp only at h
      split at h
      next => cases h
      next =>
        cases hinit : controllerStoreInitialise recovery with
        | error e =>
            rw [hinit] at h
            cases h
        | ok seed =>
            rw [hinit] at h
            obtain ⟨hne, rfl⟩ := initialise_eq_ok hinit
            dsimp only at h
            rcases hcommit : controllerStoreFlashCommit flash (seededStore recovery) exec with
              ⟨result, flash₁⟩
            rw [hcommit] at h
            cases result with
            | error e => cases h
            | ok _ =>
                cases h
                exact commit_boots (rosterOk_seeded hne) hcommit

theorem bootOrSeed_counted (recovery : Key) (hflash : Counted flash) (exec : FlashExec) :
    Counted (controllerStoreFlashBootOrSeed flash recovery exec).2 := by
  unfold controllerStoreFlashBootOrSeed
  cases bootExisting flash with
  | ok current => exact hflash
  | error e =>
      dsimp only
      split
      next => exact hflash
      next =>
        cases hinit : controllerStoreInitialise recovery with
        | error e => exact hflash
        | ok seed =>
            obtain ⟨hne, rfl⟩ := initialise_eq_ok hinit
            have hattempted := attempted_commit flash (rosterOk_seeded hne) exec
            exact hattempted.counted hflash fun _ _ => UInt32.le_refl _

/-- `controller_setup` runs the device with what flash now boots. -/
theorem setup_boots {seedExec importExec : FlashExec} {controllers : ControllerStore}
    {flash' : StoreFlash}
    (h : controllerSetup flash recovery initiator seedExec importExec
      = (some controllers, flash')) :
    bootExisting flash' = .ok controllers := by
  unfold controllerSetup at h
  rcases hseed : controllerStoreFlashBootOrSeed flash recovery seedExec with ⟨result, flash₁⟩
  rw [hseed] at h
  cases result with
  | error e => cases h
  | ok current =>
      have hbooted := bootOrSeed_boots hseed
      dsimp only at h
      split at h
      next =>
        cases hadd : controllerStoreAdd current 0 initiator controllerRoleAdmin with
        | error e =>
            rw [hadd] at h
            cases h
        | ok added =>
            obtain ⟨imported, i⟩ := added
            rw [hadd] at h
            have hok := rosterOk_add (bootExisting_roster hbooted) hadd
            dsimp only at h
            rcases hcommit : controllerStoreFlashCommit flash₁ imported importExec with
              ⟨committed, flash₂⟩
            rw [hcommit] at h
            cases committed with
            | error e => cases h
            | ok _ =>
                cases h
                exact commit_boots hok hcommit
      next =>
        cases h
        exact hbooted

theorem setup_counted (recovery initiator : Key) (hflash : Counted flash)
    (seedExec importExec : FlashExec) :
    Counted (controllerSetup flash recovery initiator seedExec importExec).2 := by
  have hcounted := bootOrSeed_counted recovery hflash seedExec
  unfold controllerSetup
  rcases hseed : controllerStoreFlashBootOrSeed flash recovery seedExec with ⟨result, flash₁⟩
  rw [hseed] at hcounted
  cases result with
  | error e => exact hcounted
  | ok current =>
      have hbooted := bootOrSeed_boots hseed
      dsimp only
      split
      next =>
        cases hadd : controllerStoreAdd current 0 initiator controllerRoleAdmin with
        | error e => exact hcounted
        | ok added =>
            obtain ⟨imported, i⟩ := added
            have hok := rosterOk_add (bootExisting_roster hbooted) hadd
            have hcounted₂ := (attempted_commit flash₁ hok importExec).counted hcounted
              fun e he => by
                rw [hbooted] at he
                cases he
            rcases hcommit : controllerStoreFlashCommit flash₁ imported importExec with
              ⟨committed, flash₂⟩
            rw [hcommit] at hcounted₂
            dsimp only
            rw [hcommit]
            cases committed with
            | error e => exact hcounted₂
            | ok _ => exact hcounted₂
      next => exact hcounted

/-- A roster that `controller_setup` runs the device with needs no import
at the next boot. -/
theorem setup_needsImport {seedExec importExec : FlashExec} {controllers : ControllerStore}
    {flash' : StoreFlash}
    (h : controllerSetup flash recovery initiator seedExec importExec
      = (some controllers, flash')) :
    needsImport controllers = false := by
  unfold controllerSetup at h
  split at h
  next => cases h
  next current flash₁ _ =>
    split at h
    next hneeds =>
      split at h
      next => cases h
      next imported i hadd =>
        split at h
        next =>
          cases h
          obtain ⟨-, -, -, -, -, rfl⟩ := controllerStoreAdd_ok hadd
          have hone : current.generation = 1 := beq_iff_eq.mp (Bool.and_eq_true_iff.mp hneeds).1
          show ((current.generation + 1 == 1) && _) = false
          rw [hone]
          rfl
        next => cases h
    next hkeep =>
      cases h
      exact Bool.eq_false_iff.mpr hkeep

-- =========================================================== the cut boots

/-- The commit of `controller_setup` that a boot which loses power makes
in a phase, and the flash it starts from. -/
def setupCommit (flash : StoreFlash) (recoveryPublicKey initiatorPublicKey : Key) :
    SetupPhase → Option (StoreFlash × ControllerStore)
  | .seeding =>
      match bootExisting flash with
      | .ok _ => none
      | .error _ =>
          if ¬sectorsAreErased flash then none
          else
            match controllerStoreInitialise recoveryPublicKey with
            | .error _ => none
            | .ok store => some (flash, store)
  | .importing =>
      match controllerStoreFlashBootOrSeed flash recoveryPublicKey .ok with
      | (.error _, _) => none
      | (.ok controllers, flash) =>
          if needsImport controllers then
            match controllerStoreAdd controllers 0 initiatorPublicKey controllerRoleAdmin with
            | .error _ => none
            | .ok (controllers, _) => some (flash, controllers)
          else none

/-- The erase of that commit, where the cut tears it, tears as flash
does. -/
def SetupTears (flash : StoreFlash) (recoveryPublicKey initiatorPublicKey : Key)
    (phase : SetupPhase) (cut : PowerCut) : Prop :=
  ∀ flash₁ store, setupCommit flash recoveryPublicKey initiatorPublicKey phase
    = some (flash₁, store) → EraseTears flash₁ store cut

theorem setupCut_counted (hflash : Counted flash) {phase : SetupPhase} {cut : PowerCut}
    (htears : SetupTears flash recovery initiator phase cut) :
    Counted (setupCut flash recovery initiator phase cut) := by
  cases phase with
  | seeding =>
      unfold setupCut
      unfold SetupTears setupCommit at htears
      dsimp only at htears ⊢
      cases hboot : bootExisting flash with
      | ok current => exact hflash
      | error e =>
          rw [hboot] at htears
          dsimp only at htears ⊢
          split
          next => exact hflash
          next herased =>
            rw [if_neg herased] at htears
            cases hinit : controllerStoreInitialise recovery with
            | error e => exact hflash
            | ok seed =>
                rw [hinit] at htears
                obtain ⟨hne, rfl⟩ := initialise_eq_ok hinit
                have hattempted := attempted_commitCut (rosterOk_seeded hne) (htears _ _ rfl)
                exact hattempted.counted hflash fun _ _ => UInt32.le_refl _
  | importing =>
      have hcounted := bootOrSeed_counted recovery hflash .ok
      unfold setupCut
      unfold SetupTears setupCommit at htears
      dsimp only at htears ⊢
      rcases hseed : controllerStoreFlashBootOrSeed flash recovery .ok with ⟨result, flash₁⟩
      rw [hseed] at hcounted htears
      cases result with
      | error e => exact hcounted
      | ok current =>
          have hbooted := bootOrSeed_boots hseed
          dsimp only at htears ⊢
          split
          next hneeds =>
            rw [if_pos hneeds] at htears
            cases hadd : controllerStoreAdd current 0 initiator controllerRoleAdmin with
            | error e => exact hcounted
            | ok added =>
                obtain ⟨imported, i⟩ := added
                rw [hadd] at htears
                have hok := rosterOk_add (bootExisting_roster hbooted) hadd
                have hattempted := attempted_commitCut hok (htears _ _ rfl)
                exact hattempted.counted hcounted fun e he => by
                  rw [hbooted] at he
                  cases he
          next => exact hcounted

-- ======================================================== the barred boots

/-- The import is for generation 1 only. -/
theorem needsImport_of_counted {booted : ControllerStore} (h : 2 ≤ booted.generation) :
    needsImport booted = false := by
  have hne : booted.generation ≠ 1 := by
    intro heq
    rw [heq] at h
    exact absurd h (by decide)
  unfold needsImport
  rw [beq_eq_false_iff_ne.mpr hne, Bool.false_and]

/-- A boot of a barred flash writes nothing and runs with a roster that
does not list the key. -/
theorem setup_barred (recovery initiator : Key) {key : Key} (h : Barred key flash)
    (seedExec importExec : FlashExec) :
    ∃ booted, controllerSetup flash recovery initiator seedExec importExec
        = (some booted, flash) ∧ RosterOk booted.slots ∧ ¬booted.Enrolled key := by
  obtain ⟨booted, hboot, hgen, hkey⟩ := h
  exact ⟨booted, setup_keep (bootOrSeed_ok hboot recovery seedExec) (needsImport_of_counted hgen),
    bootExisting_roster hboot, hkey⟩

theorem setupCut_barred {key : Key} (h : Barred key flash) (phase : SetupPhase)
    (cut : PowerCut) : setupCut flash recovery initiator phase cut = flash := by
  obtain ⟨booted, hboot, hgen, -⟩ := h
  cases phase with
  | seeding => exact setupCut_booted hboot recovery initiator cut
  | importing =>
      exact setupCut_keep (bootOrSeed_ok hboot recovery .ok) (needsImport_of_counted hgen) cut

end PicoBridge
