/-
The first boot under power cuts: when a device that lost power during
`controller_setup`, any number of times, still comes up with the two
provisioned controllers.

# Where it fails

Seeding is allowed only onto two erased sectors. A cut of the seeding
commit that has programmed a bit of sector A and not yet its whole commit
word leaves a sector that is neither a record nor erased: every later
boot reports a damaged store (`Stuck`). `seedCutHarmless` names the cuts
that do not do this, and `firstBoot_iff` shows that the boots succeed in
exactly the runs whose seeding cuts are harmless. The import commit
needs no such condition: it writes sector B while A holds the seed.
-/
import PicoBridge.Lib.Machine
import PicoBridge.Store.Commit

namespace PicoBridge

open Lib (Machine)
open Lib.NorFlash (Op run cutImage)

-- ============================================================ provisioning

/-- The keys a device is built with. -/
structure Provisioning where
  recovery : Key
  initiator : Key
  recovery_ne : recovery ≠ zeroKey
  initiator_ne : initiator ≠ zeroKey
  distinct : recovery ≠ initiator

variable (p : Provisioning)

/-- The record the seeding commit writes. -/
def Provisioning.seed : ControllerStore := seededStore p.recovery

/-- The roster after the import. -/
def Provisioning.imported : ControllerStore :=
  p.seed.rewrite 1 ⟨controllerRoleAdmin, p.initiator⟩

theorem seed_rosterOk : RosterOk p.seed.slots := rosterOk_seeded p.recovery_ne

theorem recordValid_seed :
    recordValid (some (controllerStoreEncode p.seed)) = some p.seed :=
  recordValid_seeded p.recovery_ne

/-- The import enrols the initiator in slot 1. -/
theorem add_initiator :
    controllerStoreAdd p.seed 0 p.initiator controllerRoleAdmin = .ok (p.imported, 1) := by
  have hzero : ¬keyIsZero p.initiator := fun h => p.initiator_ne ((keyIsZero_iff _).mp h)
  have hadmin : controllerStoreIsAdmin p.seed 0 := by
    simp [controllerStoreIsAdmin, Provisioning.seed]
  have hrole : ¬(controllerRoleAdmin ≠ controllerRoleOperator ∧
      controllerRoleAdmin ≠ controllerRoleAdmin) := fun h => h.2 rfl
  have hfree : [1, 2, 3, 4].find? (fun i => ¬(p.seed.slots i).used) = some (1 : Fin 5) := by
    refine List.find?_cons_of_pos ?_
    rw [decide_eq_true_eq, Provisioning.seed, seededStore_used]
    decide
  unfold controllerStoreAdd
  rw [if_neg (not_or.mpr ⟨hzero, hrole⟩), if_neg (not_not.mpr hadmin)]
  cases hfind : controllerStoreFind p.seed p.initiator with
  | ok r =>
      obtain ⟨hused, hkey, -⟩ := controllerStoreFind_ok hfind
      rw [Provisioning.seed, seededStore_used] at hused
      rw [hused, Provisioning.seed, seededStore_zero] at hkey
      exact absurd hkey p.distinct
  | error e =>
      dsimp only
      rw [hfree]
      rfl

theorem imported_rosterOk : RosterOk p.imported.slots :=
  rosterOk_add (seed_rosterOk p) (add_initiator p)

theorem recordValid_imported :
    recordValid (some (controllerStoreEncode p.imported)) = some p.imported :=
  recordValid_encode ((rosterValid_iff _).mpr (imported_rosterOk p))

theorem seed_needsImport : needsImport p.seed = true := by
  simp [needsImport, Provisioning.seed, seededStore_daily, emptySlot]
  rfl

theorem imported_needsImport : needsImport p.imported = false := by
  have : p.imported.generation = 2 := rfl
  simp [needsImport, this]

-- ======================================================== the good states

/-- Sector A holds the seed, and sector B nothing or the imported roster. -/
inductive Fine : StoreFlash → Prop
  | erased : Fine erasedFlash
  | seeded {b : Sector} : recordValid (some b) = none →
      Fine ⟨controllerStoreEncode p.seed, b⟩
  | imported : Fine ⟨controllerStoreEncode p.seed, controllerStoreEncode p.imported⟩

/-- Neither bootable nor erased. -/
def Stuck (flash : StoreFlash) : Prop :=
  bootExisting flash = .error .format ∧ sectorsAreErased flash = false

theorem boot_erased : bootExisting erasedFlash = .error .format :=
  boot_none recordValid_erased recordValid_erased

theorem erasedFlash_erased : sectorsAreErased erasedFlash = true :=
  decide_eq_true fun _ => ⟨rfl, rfl⟩

theorem boot_seeded {b : Sector} (hb : recordValid (some b) = none) :
    bootExisting ⟨controllerStoreEncode p.seed, b⟩ = .ok p.seed :=
  boot_left (recordValid_seed p) hb

theorem boot_imported :
    bootExisting ⟨controllerStoreEncode p.seed, controllerStoreEncode p.imported⟩
      = .ok p.imported := by
  have hgen : ¬p.seed.generation ≥ p.imported.generation := by
    show ¬(1 : UInt32) ≥ 2
    decide
  exact boot_newer (recordValid_seed p) (recordValid_imported p) hgen

theorem target_seeded {b : Sector} (hb : recordValid (some b) = none) :
    commitTarget ⟨controllerStoreEncode p.seed, b⟩ p.imported = some .b := by
  have hgen : p.seed.generation ≠ p.imported.generation := by
    show (1 : UInt32) ≠ 2
    decide
  exact commitTarget_b (boot_seeded p hb) (recordValid_seed p) hgen

/-- The seeding commit, not cut. -/
theorem seed_commit :
    controllerStoreFlashCommit erasedFlash p.seed .ok
      = (.ok (), ⟨controllerStoreEncode p.seed, erasedSector⟩) :=
  commit_ok (commitTarget_first boot_erased p.seed) rfl (boot_seeded p recordValid_erased)

/-- The import commit, not cut. -/
theorem import_commit {b : Sector} (hb : recordValid (some b) = none) :
    controllerStoreFlashCommit ⟨controllerStoreEncode p.seed, b⟩ p.imported .ok
      = (.ok (), ⟨controllerStoreEncode p.seed, controllerStoreEncode p.imported⟩) :=
  commit_ok (target_seeded p hb) rfl (boot_imported p)

/-- `controller_store_flash_boot_or_seed` where it seeds and where it
boots. -/
theorem bootOrSeed_seed {flash flash' : StoreFlash} {e : ControllerStoreError} {key : Key}
    {store : ControllerStore} {exec : FlashExec} (hboot : bootExisting flash = .error e)
    (herased : sectorsAreErased flash = true)
    (hinit : controllerStoreInitialise key = .ok store)
    (hcommit : controllerStoreFlashCommit flash store exec = (.ok (), flash')) :
    controllerStoreFlashBootOrSeed flash key exec = (.ok store, flash') := by
  simp only [controllerStoreFlashBootOrSeed, hboot, herased, not_true_eq_false, if_false, hinit,
    hcommit, Except.map]

theorem bootOrSeed_ok {flash : StoreFlash} {store : ControllerStore}
    (h : bootExisting flash = .ok store) (key : Key) (exec : FlashExec) :
    controllerStoreFlashBootOrSeed flash key exec = (.ok store, flash) := by
  simp only [controllerStoreFlashBootOrSeed, h]

theorem bootOrSeed_erased :
    controllerStoreFlashBootOrSeed erasedFlash p.recovery .ok
      = (.ok p.seed, ⟨controllerStoreEncode p.seed, erasedSector⟩) :=
  bootOrSeed_seed boot_erased erasedFlash_erased (initialise_ok p.recovery_ne) (seed_commit p)

/-- `controller_setup` when it imports and when it does not. -/
theorem setup_import {flash flash₁ flash₂ : StoreFlash} {recovery initiator : Key}
    {store store' : ControllerStore} {i : Fin 5}
    (hboot : controllerStoreFlashBootOrSeed flash recovery .ok = (.ok store, flash₁))
    (hneeds : needsImport store = true)
    (hadd : controllerStoreAdd store 0 initiator controllerRoleAdmin = .ok (store', i))
    (hcommit : controllerStoreFlashCommit flash₁ store' .ok = (.ok (), flash₂)) :
    controllerSetup flash recovery initiator .ok .ok = (some store', flash₂) := by
  simp only [controllerSetup, hboot, hneeds, if_true, hadd, hcommit]

theorem setup_keep {flash flash₁ : StoreFlash} {recovery initiator : Key}
    {store : ControllerStore} {seedExec importExec : FlashExec}
    (hboot : controllerStoreFlashBootOrSeed flash recovery seedExec = (.ok store, flash₁))
    (hneeds : needsImport store = false) :
    controllerSetup flash recovery initiator seedExec importExec = (some store, flash₁) := by
  simp only [controllerSetup, hboot, hneeds, Bool.false_eq_true, if_false]

/-- From every good state an uncut boot comes up with the imported roster. -/
theorem setup_fine {flash : StoreFlash} (h : Fine p flash) :
    (controllerSetup flash p.recovery p.initiator .ok .ok).1 = some p.imported := by
  cases h with
  | erased =>
      rw [setup_import (bootOrSeed_erased p) (seed_needsImport p) (add_initiator p)
        (import_commit p recordValid_erased)]
  | @seeded b hb =>
      rw [setup_import (bootOrSeed_ok (boot_seeded p hb) _ _) (seed_needsImport p)
        (add_initiator p) (import_commit p hb)]
  | imported =>
      rw [setup_keep (bootOrSeed_ok (boot_imported p) _ _) (imported_needsImport p)]

/-- From a stuck state no boot comes up, cut or not, and none changes the
flash. -/
theorem setup_stuck {flash : StoreFlash} (h : Stuck flash) :
    (controllerSetup flash p.recovery p.initiator .ok .ok).1 = none := by
  simp only [controllerSetup, controllerStoreFlashBootOrSeed, h.1, h.2, Bool.false_eq_true,
    not_false_eq_true, if_true]

theorem setupCut_stuck {flash : StoreFlash} (h : Stuck flash) (phase : SetupPhase)
    (cut : PowerCut) : setupCut flash p.recovery p.initiator phase cut = flash := by
  cases phase with
  | seeding =>
      simp only [setupCut, h.1, h.2, Bool.false_eq_true, not_false_eq_true, if_true]
  | importing =>
      simp only [setupCut, controllerStoreFlashBootOrSeed, h.1, h.2, Bool.false_eq_true,
        not_false_eq_true, if_true]

-- ======================================================= the seeding cuts

/-- The image a cut of the seeding commit leaves of the erased sector A. -/
def seedImage (cut : PowerCut) : Sector :=
  cutImage (programOps (controllerStoreEncode p.seed)) cut.done cut.torn erasedSector

/-- A cut of the seeding commit that does no harm: before the erase is
over, before its first program has cleared a bit, or after its last
program has finished the commit word. -/
def seedCutHarmless (cut : PowerCut) : Prop :=
  cut.done = 0
    ∨ (cut.done = 1 ∧ ∀ w, cut.torn = some w → ∀ i, pageRegion 0 i = true →
        firstPage (controllerStoreEncode p.seed) i ||| w i = 0xff)
    ∨ (cut.done = 17 ∧ ∃ w, cut.torn = some w ∧ ∀ i, commitCell i →
        controllerStoreEncode p.seed i ||| w i = controllerStoreEncode p.seed i)
    ∨ 18 ≤ cut.done

theorem programOps_length (data : Sector) : (programOps data).length = 18 := by
  simp [programOps, programBody]

/-- A cut of the last program of `program_sector`. -/
theorem cutImage_last (data m : Sector) (w : Option Sector) :
    cutImage (programOps data) 17 w m
      = cutImage [.program (pageRegion 0) data] 0 w (run (programBody data) fun _ => 0xff) := by
  have hlen : (programBody data).length = 16 := by simp [programBody]
  have := Lib.NorFlash.cutImage_append (programBody data) [.program (pageRegion 0) data] 0 w
    fun _ => 0xff
  rw [hlen] at this
  exact this

/-- A harmless cut leaves sector A erased, or holding the whole record. -/
theorem seedImage_harmless {cut : PowerCut} (hprogram : cut.done = 0 → cut.torn = none)
    (h : seedCutHarmless p cut) :
    seedImage p cut = erasedSector ∨ seedImage p cut = controllerStoreEncode p.seed := by
  obtain ⟨done, torn⟩ := cut
  rcases h with h0 | ⟨h1, hbits⟩ | ⟨h17, w, hw, hcommit⟩ | h18
  · left
    dsimp only at h0 hprogram
    subst h0
    rw [hprogram rfl]
    rfl
  · left
    dsimp only at h1 hbits
    subst h1
    cases torn with
    | none => rfl
    | some w =>
        funext i
        show (if pageRegion 0 i then
          (0xff : UInt8) &&& (firstPage (controllerStoreEncode p.seed) i ||| w i) else 0xff) = 0xff
        split
        next hpage => rw [hbits w rfl i hpage, UInt8.and_self]
        next => rfl
  · right
    dsimp only at h17 hw
    subst h17 hw
    funext i
    rw [seedImage, cutImage_last]
    by_cases hi : commitCell i
    · show (if pageRegion 0 i then run (programBody _) (fun _ => 0xff) i &&&
        (controllerStoreEncode p.seed i ||| w i) else _) = _
      have hway := Lib.NorFlash.onTheWay_run Lib.NorFlash.onTheWay_erased
        (programBody_publishes (controllerStoreEncode p.seed)).writes
      rw [if_pos (commitCell_page i hi), hway.1 i hi, hcommit i hi, Lib.NorFlash.ones_and]
    · exact Lib.NorFlash.torn_publish
        (fun i hi => Lib.NorFlash.publishes_run (programBody_publishes _) hi) _ w hi
  · right
    rw [seedImage, Lib.NorFlash.cutImage_all (by rwa [programOps_length])]
    exact programSector_run p.seed erasedSector

/-- Once the first program is complete, the sector is not erased. -/
theorem cutImage_programmed (store : ControllerStore) (n : Nat) (w : Option Sector) :
    cutImage (programOps (controllerStoreEncode store)) (n + 2) w erasedSector
      ≠ erasedSector := by
  intro heq
  have hcell : ¬commitCell 0 := fun h => absurd h.1 (by decide)
  have hmagic : controllerStoreEncode store 0 = leByte controllerStoreMagic 0 := rfl
  have hkeep : cutImage ((List.range' 1 15).map (fun page =>
        Op.program (pageRegion page) (controllerStoreEncode store)) ++
        [.program (pageRegion 0) (controllerStoreEncode store)]) n w
      ((Op.program (pageRegion 0) (firstPage (controllerStoreEncode store))).run
        fun _ => 0xff) 0 = controllerStoreEncode store 0 := by
    refine Lib.NorFlash.cutImage_keeps (fun op hop => ?_) n w ?_
    · rcases List.mem_append.mp hop with hop | hop
      · obtain ⟨page, -, rfl⟩ := List.mem_map.mp hop
        exact ⟨_, _, rfl, fun _ => rfl⟩
      · rw [List.mem_singleton.mp hop]
        exact ⟨_, _, rfl, fun _ => rfl⟩
    · have hpage : pageRegion 0 (0 : Fin 4096) = true := by decide
      simp only [Op.run, hpage, if_true, firstPage, if_neg hcell, Lib.NorFlash.ones_and]
  have herased := congrFun heq 0
  have hcut : cutImage (programOps (controllerStoreEncode store)) (n + 2) w erasedSector 0
      = controllerStoreEncode store 0 := hkeep
  rw [hcut, hmagic] at herased
  revert herased
  decide

/-- Any other cut leaves a sector that is neither erased nor a record. -/
theorem seedImage_harmful {cut : PowerCut} (h : ¬seedCutHarmless p cut) :
    recordValid (some (seedImage p cut)) = none ∧ seedImage p cut ≠ erasedSector := by
  obtain ⟨done, torn⟩ := cut
  simp only [seedCutHarmless, not_or] at h
  obtain ⟨h0, h1, h17, h18⟩ := h
  have hway := Lib.NorFlash.onTheWay_run Lib.NorFlash.onTheWay_erased
    (programBody_publishes (controllerStoreEncode p.seed)).writes
  constructor
  · rcases cutImage_cases p.seed ⟨done, torn⟩ erasedSector with
      ⟨hdone, -⟩ | ⟨hdone, -⟩ | hnone | hwhole
    · exact absurd hdone h0
    · exact absurd hdone h0
    · exact hnone
    · exfalso
      obtain ⟨mark, hheld, hmark⟩ := commit_marks p.seed
      obtain ⟨n, rfl⟩ := Nat.exists_eq_succ_of_ne_zero h0
      by_cases hn : n < 16
      · have hbody := Lib.NorFlash.body_cut Lib.NorFlash.onTheWay_erased
          (programBody_publishes (controllerStoreEncode p.seed)).writes
          (.program (pageRegion 0) (controllerStoreEncode p.seed)) n torn
          (by simpa [programBody] using hn)
        exact hmark ((congrFun hwhole mark).symm.trans (hbody.1 mark hheld))
      · have hn16 : n = 16 := by omega
        subst hn16
        dsimp only at hwhole
        rw [cutImage_last] at hwhole
        cases torn with
        | none => exact hmark ((congrFun hwhole mark).symm.trans (hway.1 mark hheld))
        | some w =>
            refine h17 ⟨rfl, w, rfl, fun i hi => ?_⟩
            have hcell := congrFun hwhole i
            simp only [cutImage, Op.torn, commitCell_page i hi, if_true, hway.1 i hi,
              Lib.NorFlash.ones_and] at hcell
            exact hcell
  · intro herased
    obtain ⟨n, rfl⟩ := Nat.exists_eq_succ_of_ne_zero h0
    cases n with
    | zero =>
        refine h1 ⟨rfl, fun w hw i hpage => ?_⟩
        subst hw
        have hcell : (if pageRegion 0 i then
            (0xff : UInt8) &&& (firstPage (controllerStoreEncode p.seed) i ||| w i) else 0xff)
            = 0xff := congrFun herased i
        rwa [if_pos hpage, Lib.NorFlash.ones_and] at hcell
    | succ n => exact cutImage_programmed p.seed n torn herased

-- ================================================================ the boots

/-- The boots that lose power: each consumes where its cut falls. -/
def firstBootMachine : Machine StoreFlash (SetupPhase × PowerCut) Unit where
  step flash i := (setupCut flash p.recovery p.initiator i.1 i.2, [])

/-- The seeding commit is not cut harmfully by this boot. -/
def seedingGuard (flash : StoreFlash) (i : SetupPhase × PowerCut) : Prop :=
  flash = erasedFlash → i.1 = .seeding → seedCutHarmless p i.2

/-- The boot that is not cut comes up with the two provisioned
controllers. -/
def ComesUp (flash : StoreFlash) : Prop :=
  ∃ controllers,
    (controllerSetup flash p.recovery p.initiator .ok .ok).1 = some controllers ∧
      controllers.slots 0 = ⟨controllerRoleRecoveryAdmin, p.recovery⟩ ∧
      controllers.slots 1 = ⟨controllerRoleAdmin, p.initiator⟩

theorem comesUp_fine {flash : StoreFlash} (h : Fine p flash) : ComesUp p flash := by
  refine ⟨p.imported, setup_fine p h, ?_, ?_⟩
  · rw [Provisioning.imported, rewrite_other p.seed (show (0 : Fin 5) ≠ 1 by decide)]
    exact seededStore_zero p.recovery
  · exact rewrite_self p.seed 1 _

theorem not_comesUp_stuck {flash : StoreFlash} (h : Stuck flash) : ¬ComesUp p flash := by
  rintro ⟨controllers, hsetup, -⟩
  rw [setup_stuck p h] at hsetup
  cases hsetup

/-- A cut of the import commit leaves a good state. -/
theorem fine_importCut {b : Sector} (hb : recordValid (some b) = none) {cut : PowerCut}
    (hprogram : cut.done = 0 → cut.torn = none) :
    Fine p (commitCut ⟨controllerStoreEncode p.seed, b⟩ p.imported cut) := by
  simp only [commitCut, target_seeded p hb]
  rcases cutImage_cases p.imported cut b with ⟨-, -, h⟩ | ⟨hdone, htorn⟩ | h | h
  · show Fine p ⟨_, cutImage _ _ _ b⟩
    rw [h]
    exact .seeded hb
  · rw [hprogram hdone] at htorn
    cases htorn
  · exact .seeded h
  · show Fine p ⟨_, cutImage _ _ _ b⟩
    rw [h]
    exact .imported

/-- Stuck: sector A is no record and not erased, sector B erased. -/
theorem stuck_of_torn {a : Sector} (ha : recordValid (some a) = none)
    (hne : a ≠ erasedSector) : Stuck ⟨a, erasedSector⟩ := by
  refine ⟨boot_none ha recordValid_erased, ?_⟩
  unfold sectorsAreErased
  rw [decide_eq_false_iff_not]
  exact fun h => hne (funext fun i => (h i).1)

/-- The paths of `controller_setup` to a cut. -/
theorem setupCut_seed {flash : StoreFlash} {e : ControllerStoreError}
    {recovery initiator : Key} {store : ControllerStore}
    (hboot : bootExisting flash = .error e) (herased : sectorsAreErased flash = true)
    (hinit : controllerStoreInitialise recovery = .ok store) (cut : PowerCut) :
    setupCut flash recovery initiator .seeding cut = commitCut flash store cut := by
  simp only [setupCut, hboot, herased, not_true_eq_false, if_false, hinit]

theorem setupCut_booted {flash : StoreFlash} {store : ControllerStore}
    (hboot : bootExisting flash = .ok store) (recovery initiator : Key) (cut : PowerCut) :
    setupCut flash recovery initiator .seeding cut = flash := by
  simp only [setupCut, hboot]

theorem setupCut_import {flash flash₁ : StoreFlash} {recovery initiator : Key}
    {store store' : ControllerStore} {i : Fin 5}
    (hboot : controllerStoreFlashBootOrSeed flash recovery .ok = (.ok store, flash₁))
    (hneeds : needsImport store = true)
    (hadd : controllerStoreAdd store 0 initiator controllerRoleAdmin = .ok (store', i))
    (cut : PowerCut) :
    setupCut flash recovery initiator .importing cut = commitCut flash₁ store' cut := by
  simp only [setupCut, hboot, hneeds, if_true, hadd]

theorem setupCut_keep {flash flash₁ : StoreFlash} {recovery initiator : Key}
    {store : ControllerStore}
    (hboot : controllerStoreFlashBootOrSeed flash recovery .ok = (.ok store, flash₁))
    (hneeds : needsImport store = false) (cut : PowerCut) :
    setupCut flash recovery initiator .importing cut = flash₁ := by
  simp only [setupCut, hboot, hneeds, Bool.false_eq_true, if_false]

/-- The flash a seeding cut leaves of the erased one. -/
theorem setupCut_erased (cut : PowerCut) :
    setupCut erasedFlash p.recovery p.initiator .seeding cut
      = ⟨seedImage p cut, erasedSector⟩ := by
  rw [setupCut_seed boot_erased erasedFlash_erased (initialise_ok p.recovery_ne)]
  have htarget := commitTarget_first boot_erased p.seed
  show commitCut erasedFlash p.seed cut = _
  unfold commitCut
  rw [htarget]
  rfl

/-- A boot that loses power keeps a good state good if it does not cut
the seeding harmfully. -/
theorem fine_step {flash : StoreFlash} (h : Fine p flash) {i : SetupPhase × PowerCut}
    (hprogram : i.2.done = 0 → i.2.torn = none) (hguard : seedingGuard p flash i) :
    Fine p ((firstBootMachine p).step flash i).1 := by
  obtain ⟨phase, cut⟩ := i
  show Fine p (setupCut flash p.recovery p.initiator phase cut)
  cases h with
  | erased =>
      cases phase with
      | seeding =>
          rw [setupCut_erased]
          rcases seedImage_harmless p hprogram (hguard rfl rfl) with himage | himage
          · rw [himage]
            exact .erased
          · rw [himage]
            exact .seeded recordValid_erased
      | importing =>
          rw [setupCut_import (bootOrSeed_erased p) (seed_needsImport p) (add_initiator p)]
          exact fine_importCut p recordValid_erased hprogram
  | @seeded b hb =>
      have hboot := boot_seeded p hb
      cases phase with
      | seeding =>
          rw [setupCut_booted hboot]
          exact .seeded hb
      | importing =>
          rw [setupCut_import (bootOrSeed_ok hboot _ _) (seed_needsImport p) (add_initiator p)]
          exact fine_importCut p hb hprogram
  | imported =>
      have hboot := boot_imported p
      cases phase with
      | seeding =>
          rw [setupCut_booted hboot]
          exact .imported
      | importing =>
          rw [setupCut_keep (bootOrSeed_ok hboot _ _) (imported_needsImport p)]
          exact .imported

/-- A harmful cut of the seeding leaves the device stuck. -/
theorem stuck_step {flash : StoreFlash} {i : SetupPhase × PowerCut}
    (hguard : ¬seedingGuard p flash i) : Stuck ((firstBootMachine p).step flash i).1 := by
  obtain ⟨phase, cut⟩ := i
  show Stuck (setupCut flash p.recovery p.initiator phase cut)
  simp only [seedingGuard, Classical.not_imp] at hguard
  obtain ⟨hflash, hphase, hharm⟩ := hguard
  rw [hflash, hphase, setupCut_erased]
  obtain ⟨hnone, hne⟩ := seedImage_harmful p hharm
  exact stuck_of_torn hnone hne

theorem stuck_final {flash : StoreFlash} (h : Stuck flash) (is : List (SetupPhase × PowerCut)) :
    Stuck ((firstBootMachine p).final flash is) := by
  refine (firstBootMachine p).final_inv (P := Stuck) (fun flash i h => ?_) h is
  show Stuck (setupCut flash p.recovery p.initiator i.1 i.2)
  rwa [setupCut_stuck p h]

/-- From a good state, the boots to come decide. -/
theorem firstBoot_fine (is : List (SetupPhase × PowerCut)) :
    ∀ {flash : StoreFlash}, Fine p flash → (∀ i ∈ is, i.2.done = 0 → i.2.torn = none) →
      (ComesUp p ((firstBootMachine p).final flash is) ↔
        (firstBootMachine p).StepsMeet (seedingGuard p) flash is) := by
  induction is with
  | nil => exact fun hfine _ => iff_of_true (comesUp_fine p hfine) trivial
  | cons i is ih =>
      intro flash hfine hcuts
      by_cases hguard : seedingGuard p flash i
      · have hstep := fine_step p hfine (hcuts i List.mem_cons_self) hguard
        have := ih hstep fun j hj => hcuts j (List.mem_cons_of_mem _ hj)
        exact this.trans (and_iff_right hguard).symm
      · have hstuck := stuck_final p (stuck_step p hguard) is
        exact iff_of_false (not_comesUp_stuck p hstuck) fun h => hguard h.1

/-- After any number of boots from erased sectors that each lose power at
some point of `controller_setup` (between two flash operations or inside
a page program), the first boot that does not comes up with the recovery
admin in slot 0 and the provisioned initiator as admin in slot 1 if and
only if none of them cut the seeding commit harmfully. -/
theorem firstBoot_iff (is : List (SetupPhase × PowerCut))
    (hprogram : ∀ i ∈ is, i.2.done = 0 → i.2.torn = none) :
    ComesUp p ((firstBootMachine p).final erasedFlash is) ↔
      (firstBootMachine p).StepsMeet (seedingGuard p) erasedFlash is := by
  have hfine : Fine p erasedFlash := .erased
  exact firstBoot_fine p is hfine hprogram

/-- A device built with two distinct non-zero keys. -/
def sampleProvisioning : Provisioning :=
  ⟨tagKey 1, tagKey 2, by decide, by decide, by decide⟩

/-- Power lost right after the erase of the seeding commit, and at the
next boot after the first page of the import: the device comes up. -/
theorem firstBoot_two_cuts :
    ComesUp sampleProvisioning ((firstBootMachine sampleProvisioning).final erasedFlash
      [(.seeding, ⟨1, none⟩), (.importing, ⟨2, none⟩)]) := by
  refine (firstBoot_iff sampleProvisioning [(.seeding, ⟨1, none⟩), (.importing, ⟨2, none⟩)]
    (by simp)).mpr ⟨fun _ _ => ?_, fun _ h => ?_, trivial⟩
  · exact .inr (.inl ⟨rfl, fun w hw => by cases hw⟩)
  · cases h

/-- Power lost once, right after the first page of the seeding commit:
the next boot does not come up, nor does any later one. -/
theorem firstBoot_bricked :
    ¬ComesUp sampleProvisioning ((firstBootMachine sampleProvisioning).final erasedFlash
        [(.seeding, ⟨2, none⟩)])
      ∧ ∀ is, ¬ComesUp sampleProvisioning ((firstBootMachine sampleProvisioning).final
          erasedFlash ((.seeding, ⟨2, none⟩) :: is)) := by
  have hharm : ¬seedingGuard sampleProvisioning erasedFlash (.seeding, ⟨2, none⟩) := by
    intro h
    rcases h rfl rfl with h | ⟨h, -⟩ | ⟨h, -⟩ | h <;> exact absurd h (by decide)
  have hall : ∀ is, ¬ComesUp sampleProvisioning ((firstBootMachine sampleProvisioning).final
      erasedFlash ((.seeding, ⟨2, none⟩) :: is)) := by
    intro is
    rw [Machine.final_cons]
    exact not_comesUp_stuck _ (stuck_final _ (stuck_step _ hharm) is)
  exact ⟨hall [], hall⟩

end PicoBridge
