/-
`firmware/controller_store_flash.c` and `controller_setup` of
`firmware/bridge_main.c`: the roster's two flash sectors, committing a
roster to one of them, and the first boot.

# What is modelled how

- Flash is the two sectors; `program_sector` is its list of flash
  operations (`programOps`) over `Lib.NorFlash`, run whole or cut.
- `flash_safe_execute` either ran the operation and says so, or reports
  an error, having run it or not (`FlashExec`).
- The provisioned keys of the generated header are parameters.
- A power cut inside a function that programs flash ends the run, so each
  such function has a second definition next to it, which follows the
  same path to the cut and returns the flash that is left.
-/
import PicoBridge.Lib.NorFlash
import PicoBridge.Store.Roster

namespace PicoBridge

open Lib.NorFlash (Op run cutImage Publishes HoldsBack publish_run publish_cut_cases)

-- ============================================================ the sectors

/-- One of the two store sectors. -/
inductive SectorName
  | a
  | b
  deriving DecidableEq

def SectorName.other : SectorName → SectorName
  | .a => .b
  | .b => .a

/-- The flash bytes of the store. -/
structure StoreFlash where
  a : Sector
  b : Sector

def StoreFlash.get (flash : StoreFlash) : SectorName → Sector
  | .a => flash.a
  | .b => flash.b

def StoreFlash.set (flash : StoreFlash) (name : SectorName) (data : Sector) : StoreFlash :=
  match name with
  | .a => { flash with a := data }
  | .b => { flash with b := data }

def erasedSector : Sector := fun _ => 0xff

def erasedFlash : StoreFlash := ⟨erasedSector, erasedSector⟩

/-- `FLASH_PAGE_SIZE`. -/
def flashPageSize : Nat := 256

/-- The cells of a page. -/
def pageRegion (page : Nat) (i : Fin 4096) : Bool := decide (i.val / flashPageSize = page)

theorem pageRegion_iff {page : Nat} {i : Fin 4096} :
    pageRegion page i = true ↔ i.val / 256 = page := decide_eq_true_iff

/-- The commit word of a record. -/
def commitCell (i : Fin 4096) : Prop := commitOffset ≤ i.val ∧ i.val < recordSize

instance (i : Fin 4096) : Decidable (commitCell i) := inferInstanceAs (Decidable (_ ∧ _))

/-- `first_page`: the record with its commit word left erased. -/
def firstPage (data : Sector) : Sector := fun i => if commitCell i then 0xff else data i

/-- The programs of `program_sector` before its last one. -/
def programBody (data : Sector) : List (Op (Fin 4096)) :=
  .program (pageRegion 0) (firstPage data) ::
    (List.range' 1 15).map fun page => .program (pageRegion page) data

/-- `program_sector`: erase, the first page without the commit word, the
other pages, the first page whole. -/
def programOps (data : Sector) : List (Op (Fin 4096)) :=
  .erase :: (programBody data ++ [.program (pageRegion 0) data])

-- ============================================================ the commit

/-- `boot_existing`. -/
def bootExisting (flash : StoreFlash) : Except ControllerStoreError ControllerStore :=
  controllerStoreBoot (some flash.a) (some flash.b)

/-- What `flash_safe_execute` did with the operation it was given. -/
inductive FlashExec
  | ok
  | failed (ran : Bool)
  deriving DecidableEq

/-- The sector `controller_store_flash_commit` picks, or none where it
refuses a roster with the generation in use. -/
def commitTarget (flash : StoreFlash) (store : ControllerStore) : Option SectorName :=
  match bootExisting flash with
  | .error _ => some .a
  | .ok current =>
      if current.generation = store.generation then none
      else
        match controllerStoreBoot (some flash.a) none with
        | .ok aStore =>
            if aStore.generation = current.generation then some .b else some .a
        | .error _ => some .a

/-- The flash after `program_sector`. -/
def programSector (flash : StoreFlash) (target : SectorName) (store : ControllerStore) :
    StoreFlash :=
  flash.set target (run (programOps (controllerStoreEncode store)) (flash.get target))

/-- `controller_store_flash_commit`. -/
def controllerStoreFlashCommit (flash : StoreFlash) (store : ControllerStore)
    (exec : FlashExec) : Except ControllerStoreError Unit × StoreFlash :=
  match commitTarget flash store with
  | none => (.error .argument, flash)
  | some target =>
      match exec with
      | .failed ran =>
          (.error .format, if ran then programSector flash target store else flash)
      | .ok =>
          match bootExisting (programSector flash target store) with
          | .ok verified =>
              (if verified.generation = store.generation then .ok () else .error .format,
                programSector flash target store)
          | .error _ => (.error .format, programSector flash target store)

/-- A power cut: after `done` complete flash operations, and with `torn`
inside the next one. -/
structure PowerCut where
  done : Nat
  torn : Option Sector

/-- The flash a power cut inside `controller_store_flash_commit` leaves. -/
def commitCut (flash : StoreFlash) (store : ControllerStore) (cut : PowerCut) : StoreFlash :=
  match commitTarget flash store with
  | none => flash
  | some target =>
      flash.set target
        (cutImage (programOps (controllerStoreEncode store)) cut.done cut.torn
          (flash.get target))

-- ============================================================= first boot

/-- `sectors_are_erased`. -/
def sectorsAreErased (flash : StoreFlash) : Bool :=
  decide (∀ i, flash.a i = 0xff ∧ flash.b i = 0xff)

/-- `controller_store_flash_boot_or_seed`. -/
def controllerStoreFlashBootOrSeed (flash : StoreFlash) (recoveryPublicKey : Key)
    (exec : FlashExec) : Except ControllerStoreError ControllerStore × StoreFlash :=
  match bootExisting flash with
  | .ok store => (.ok store, flash)
  | .error _ =>
      if ¬sectorsAreErased flash then (.error .format, flash)
      else
        match controllerStoreInitialise recoveryPublicKey with
        | .error e => (.error e, flash)
        | .ok store =>
            let r := controllerStoreFlashCommit flash store exec
            (r.1.map fun _ => store, r.2)

/-- The test of `controller_setup` for the first multi-controller boot:
generation 1 and nobody but the recovery admin enrolled. -/
def needsImport (controllers : ControllerStore) : Bool :=
  controllers.generation == 1 &&
    [1, 2, 3, 4].all fun i => (controllers.slots i).role == controllerRoleNone

/-- `controller_setup`: the roster the device runs with, or none where it
returns false. -/
def controllerSetup (flash : StoreFlash) (recoveryPublicKey initiatorPublicKey : Key)
    (seedExec importExec : FlashExec) : Option ControllerStore × StoreFlash :=
  match controllerStoreFlashBootOrSeed flash recoveryPublicKey seedExec with
  | (.error _, flash) => (none, flash)
  | (.ok controllers, flash) =>
      if needsImport controllers then
        match controllerStoreAdd controllers 0 initiatorPublicKey controllerRoleAdmin with
        | .error _ => (none, flash)
        | .ok (controllers, _) =>
            match controllerStoreFlashCommit flash controllers importExec with
            | (.ok _, flash) => (some controllers, flash)
            | (.error _, flash) => (none, flash)
      else (some controllers, flash)

/-- The commit of `controller_setup` a power cut falls into. -/
inductive SetupPhase
  | seeding
  | importing
  deriving DecidableEq

/-- The flash a power cut inside `controller_setup` leaves. A cut in a
commit that this boot does not make falls outside every flash operation. -/
def setupCut (flash : StoreFlash) (recoveryPublicKey initiatorPublicKey : Key)
    (phase : SetupPhase) (cut : PowerCut) : StoreFlash :=
  match phase with
  | .seeding =>
      match bootExisting flash with
      | .ok _ => flash
      | .error _ =>
          if ¬sectorsAreErased flash then flash
          else
            match controllerStoreInitialise recoveryPublicKey with
            | .error _ => flash
            | .ok store => commitCut flash store cut
  | .importing =>
      match controllerStoreFlashBootOrSeed flash recoveryPublicKey .ok with
      | (.error _, flash) => flash
      | (.ok controllers, flash) =>
          if needsImport controllers then
            match controllerStoreAdd controllers 0 initiatorPublicKey controllerRoleAdmin with
            | .error _ => flash
            | .ok (controllers, _) => commitCut flash controllers cut
          else flash

-- =============================================== the sequence publishes

/-- `program_sector` holds back the commit word to its last program. -/
theorem programBody_publishes (data : Sector) :
    Publishes data commitCell (programBody data) where
  writes op hop := by
    rcases List.mem_cons.mp hop with rfl | hop
    · refine ⟨_, _, rfl, fun i _ => ⟨fun hc => ?_, fun hc => ?_⟩⟩
      · exact if_pos hc
      · exact if_neg hc
    · obtain ⟨page, hpage, rfl⟩ := List.mem_map.mp hop
      refine ⟨_, _, rfl, fun i hi => ⟨fun hc => ?_, fun _ => rfl⟩⟩
      -- the commit word is on page 0
      have := (List.mem_range'_1.mp hpage).1
      rw [pageRegion_iff] at hi
      have hlt : i.val < 188 := hc.2
      omega
  covers i hi := by
    by_cases h0 : i.val / flashPageSize = 0
    · exact ⟨_, _, List.mem_cons_self, decide_eq_true h0⟩
    · refine ⟨_, _, List.mem_cons_of_mem _ (List.mem_map.mpr ⟨i.val / flashPageSize, ?_, rfl⟩),
        decide_eq_true rfl⟩
      have := i.isLt
      rw [List.mem_range'_1]
      simp only [flashPageSize] at h0 ⊢
      omega

theorem commitCell_page (i : Fin 4096) (h : commitCell i) : pageRegion 0 i = true := by
  have hlt : i.val < 188 := h.2
  rw [pageRegion_iff]
  omega

/-- The commit word of a record is not the erased one. -/
theorem commit_marks (store : ControllerStore) :
    ∃ i, commitCell i ∧ controllerStoreEncode store i ≠ 0xff := by
  refine ⟨⟨commitOffset, by decide⟩, ⟨Nat.le_refl _, by decide⟩, ?_⟩
  have h := byteAt_encode_commit store (show 0 < 4 by omega)
  rw [Nat.add_zero, byteAt_eq _ (by decide)] at h
  rw [h]
  decide

/-- A sector whose commit word is not a record's holds no record. -/
theorem recordValid_unpublished {image : Sector} {store : ControllerStore}
    (h : ∃ i, commitCell i ∧ image i ≠ controllerStoreEncode store i) :
    recordValid (some image) = none := by
  obtain ⟨i, hi, hne⟩ := h
  cases hv : recordValid (some image) with
  | none => rfl
  | some s =>
      have hk : i.val - commitOffset < 4 := by
        simp only [commitCell, commitOffset, recordSize] at hi ⊢
        omega
      have hval : commitOffset + (i.val - commitOffset) = i.val := Nat.add_sub_cancel' hi.1
      have himage := recordValid_commit hv hk
      have hdata := byteAt_encode_commit store hk
      rw [hval, byteAt_eq _ i.isLt] at himage hdata
      exact absurd (himage.trans hdata.symm) hne

@[simp] theorem programSector_run (store : ControllerStore) (m : Sector) :
    run (programOps (controllerStoreEncode store)) m = controllerStoreEncode store :=
  publish_run (programBody_publishes _) commitCell_page m

/-- What a cut of `program_sector` can leave of the target sector. -/
theorem cutImage_cases (store : ControllerStore) (cut : PowerCut) (m : Sector) :
    let image := cutImage (programOps (controllerStoreEncode store)) cut.done cut.torn m
    (cut.done = 0 ∧ cut.torn = none ∧ image = m) ∨ (cut.done = 0 ∧ cut.torn = some image)
      ∨ recordValid (some image) = none ∨ image = controllerStoreEncode store := by
  intro image
  rcases publish_cut_cases (programBody_publishes (controllerStoreEncode store))
      commitCell_page (commit_marks store) cut.done cut.torn m with h | h | h | h
  · exact .inl h
  · exact .inr (.inl h)
  · exact .inr (.inr (.inl (recordValid_unpublished h)))
  · exact .inr (.inr (.inr h))

end PicoBridge
