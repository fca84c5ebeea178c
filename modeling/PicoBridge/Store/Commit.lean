/-
A commit of the trust store under power cuts: whatever the two sectors
held, the next boot reads the roster from before or the roster that was
being committed.

# The argument

The sector that is rewritten is never the one the current roster is read
from (`commitTarget_spec`), so that one survives every cut, and a cut
leaves of the rewritten one its old bytes, nothing that is a record, or
the whole new record (`cutImage_cases`). `Boots` reads the outcome off
the pair: the higher generation wins, so the booted generation never goes
back.
-/
import PicoBridge.Store.Flash

namespace PicoBridge

-- ====================================================== reading two sectors

@[simp] theorem SectorName.other_other (name : SectorName) : name.other.other = name := by
  cases name <;> rfl

@[simp] theorem StoreFlash.get_set (flash : StoreFlash) (name : SectorName) (data : Sector) :
    (flash.set name data).get name = data := by
  cases name <;> rfl

@[simp] theorem StoreFlash.get_set_other (flash : StoreFlash) (name : SectorName)
    (data : Sector) : (flash.set name data).get name.other = flash.get name.other := by
  cases name <;> rfl

@[simp] theorem StoreFlash.set_get (flash : StoreFlash) (name : SectorName) :
    flash.set name (flash.get name) = flash := by
  cases name <;> rfl

theorem boot_none {a b : Option Sector} (ha : recordValid a = none)
    (hb : recordValid b = none) : controllerStoreBoot a b = .error .format := by
  simp only [controllerStoreBoot, ha, hb]

theorem boot_left {a b : Option Sector} {store : ControllerStore}
    (ha : recordValid a = some store) (hb : recordValid b = none) :
    controllerStoreBoot a b = .ok store := by
  simp only [controllerStoreBoot, ha, hb]

theorem boot_newer {a b : Option Sector} {older newer : ControllerStore}
    (ha : recordValid a = some older) (hb : recordValid b = some newer)
    (hlt : ¬older.generation ≥ newer.generation) : controllerStoreBoot a b = .ok newer := by
  simp only [controllerStoreBoot, ha, hb, if_neg hlt]

theorem boot_first {a b : Option Sector} {newer older : ControllerStore}
    (ha : recordValid a = some newer) (hb : recordValid b = some older)
    (hge : newer.generation ≥ older.generation) : controllerStoreBoot a b = .ok newer := by
  simp only [controllerStoreBoot, ha, hb, if_pos hge]

/-- A boot that succeeds read one of the sectors. -/
theorem bootExisting_ok {flash : StoreFlash} {store : ControllerStore}
    (h : bootExisting flash = .ok store) :
    ∃ name, recordValid (some (flash.get name)) = some store := by
  unfold bootExisting controllerStoreBoot at h
  split at h
  next => cases h
  next a ha _ =>
    cases h
    exact ⟨.a, ha⟩
  next b _ hb =>
    cases h
    exact ⟨.b, hb⟩
  next a b ha hb =>
    cases h
    split
    · exact ⟨.a, ha⟩
    · exact ⟨.b, hb⟩

theorem bootExisting_roster {flash : StoreFlash} {store : ControllerStore}
    (h : bootExisting flash = .ok store) : RosterOk store.slots := by
  obtain ⟨name, hname⟩ := bootExisting_ok h
  exact (rosterValid_iff _).mp (recordValid_roster hname)

/-- With a record in one sector the device boots: from that sector, or
from a record in the other one that is not older. -/
theorem bootExisting_of_valid {flash : StoreFlash} {name : SectorName}
    {store : ControllerStore} (h : recordValid (some (flash.get name)) = some store) :
    ∃ store', bootExisting flash = .ok store' ∧ store.generation ≤ store'.generation ∧
      (store' = store ∨ recordValid (some (flash.get name.other)) = some store') := by
  cases name with
  | a =>
      have ha : recordValid (some flash.a) = some store := h
      cases hb : recordValid (some flash.b) with
      | none =>
          refine ⟨store, ?_, UInt32.le_refl _, .inl rfl⟩
          simp only [bootExisting, controllerStoreBoot, ha, hb]
      | some b =>
          by_cases hge : store.generation ≥ b.generation
          · refine ⟨store, ?_, UInt32.le_refl _, .inl rfl⟩
            simp only [bootExisting, controllerStoreBoot, ha, hb, if_pos hge]
          · refine ⟨b, ?_, UInt32.le_of_lt (UInt32.not_le.mp hge), .inr hb⟩
            simp only [bootExisting, controllerStoreBoot, ha, hb, if_neg hge]
  | b =>
      have hb : recordValid (some flash.b) = some store := h
      cases ha : recordValid (some flash.a) with
      | none =>
          refine ⟨store, ?_, UInt32.le_refl _, .inl rfl⟩
          simp only [bootExisting, controllerStoreBoot, ha, hb]
      | some a =>
          by_cases hge : a.generation ≥ store.generation
          · refine ⟨a, ?_, hge, .inr ha⟩
            simp only [bootExisting, controllerStoreBoot, ha, hb, if_pos hge]
          · refine ⟨store, ?_, UInt32.le_refl _, .inl rfl⟩
            simp only [bootExisting, controllerStoreBoot, ha, hb, if_neg hge]

/-- Booting sector A alone. -/
theorem boot_a_only (data : Sector) : controllerStoreBoot (some data) none
    = match recordValid (some data) with
      | some store => .ok store
      | none => .error .format := by
  unfold controllerStoreBoot
  cases recordValid (some data) <;> rfl

/-- The sector to be rewritten is not the one the current roster was read
from. -/
theorem commitTarget_spec {flash : StoreFlash} {current store : ControllerStore}
    {target : SectorName} (hboot : bootExisting flash = .ok current)
    (h : commitTarget flash store = some target) :
    recordValid (some (flash.get target.other)) = some current ∧
      current.generation ≠ store.generation := by
  simp only [commitTarget, hboot, boot_a_only] at h
  split at h
  next => cases h
  next hne =>
    refine ⟨?_, hne⟩
    unfold bootExisting controllerStoreBoot at hboot
    cases ha : recordValid (some flash.a) with
    | none =>
        -- sector A holds no record, so the current roster is in B
        rw [ha] at h hboot
        cases h
        cases hb : recordValid (some flash.b) with
        | none =>
            rw [hb] at hboot
            cases hboot
        | some b =>
            rw [hb] at hboot
            cases hboot
            exact hb
    | some a =>
        rw [ha] at h hboot
        dsimp only at h
        cases hb : recordValid (some flash.b) with
        | none =>
            rw [hb] at hboot
            cases hboot
            rw [if_pos rfl] at h
            cases h
            exact ha
        | some b =>
            rw [hb] at hboot
            simp only [Except.ok.injEq] at hboot
            split at hboot
            next =>
              subst hboot
              rw [if_pos rfl] at h
              cases h
              exact ha
            next hlt =>
              subst hboot
              have hgen : a.generation ≠ b.generation := fun heq =>
                hlt (heq ▸ UInt32.le_refl _)
              rw [if_neg hgen] at h
              cases h
              exact hb

/-- With nothing to boot, and with the current roster in sector A. -/
theorem commitTarget_first {flash : StoreFlash} {e : ControllerStoreError}
    (hboot : bootExisting flash = .error e) (store : ControllerStore) :
    commitTarget flash store = some .a := by
  simp only [commitTarget, hboot]

theorem commitTarget_b {flash : StoreFlash} {current store : ControllerStore}
    (hboot : bootExisting flash = .ok current)
    (ha : recordValid (some flash.a) = some current)
    (hne : current.generation ≠ store.generation) : commitTarget flash store = some .b := by
  simp only [commitTarget, hboot, boot_a_only, ha, if_neg hne, if_true]

/-- With an older roster there. -/
theorem commitTarget_a {flash : StoreFlash} {current older store : ControllerStore}
    (hboot : bootExisting flash = .ok current)
    (ha : recordValid (some flash.a) = some older)
    (hne : current.generation ≠ store.generation)
    (hold : older.generation ≠ current.generation) : commitTarget flash store = some .a := by
  simp only [commitTarget, hboot, boot_a_only, ha, if_neg hne, if_neg hold]

/-- A commit whose roster is the one booted afterwards returns OK. -/
theorem commit_ok {flash flash' : StoreFlash} {store : ControllerStore} {target : SectorName}
    (htarget : commitTarget flash store = some target)
    (hset : flash.set target (controllerStoreEncode store) = flash')
    (hboot : bootExisting flash' = .ok store) :
    controllerStoreFlashCommit flash store .ok = (.ok (), flash') := by
  have hprogram : programSector flash target store = flash' := by
    rw [programSector, programSector_run, hset]
  simp only [controllerStoreFlashCommit, htarget, hprogram, hboot, if_true]

-- ============================================================ the outcomes

/-- The cut tears the erase of a commit only as flash does: it leaves a
sector that holds no record, or the bytes that were there. -/
def EraseTears (flash : StoreFlash) (store : ControllerStore) (cut : PowerCut) : Prop :=
  cut.done = 0 → ∀ residue, cut.torn = some residue →
    recordValid (some residue) = none ∨
      ∀ target, commitTarget flash store = some target → residue = flash.get target

/-- What a boot reads once a commit of `store` was attempted: a roster no
older than the current one, and either the current one or the new one. -/
def Boots (flash : StoreFlash) (current store : ControllerStore) : Prop :=
  ∃ booted, bootExisting flash = .ok booted ∧ current.generation ≤ booted.generation ∧
    (booted = current ∨ booted = store)

theorem boots_same {flash : StoreFlash} {current : ControllerStore}
    (h : bootExisting flash = .ok current) (store : ControllerStore) :
    Boots flash current store :=
  ⟨current, h, UInt32.le_refl _, .inl rfl⟩

/-- Rewriting the target with no record, or with the new one. -/
theorem boots_set {flash : StoreFlash} {current store : ControllerStore}
    {target : SectorName} (hboot : bootExisting flash = .ok current)
    (htarget : commitTarget flash store = some target) {data : Sector}
    (hdata : recordValid (some data) = none ∨ recordValid (some data) = some store) :
    Boots (flash.set target data) current store := by
  have hcurrent : recordValid (some ((flash.set target data).get target.other))
      = some current := by
    rw [StoreFlash.get_set_other]
    exact (commitTarget_spec hboot htarget).1
  obtain ⟨booted, hbooted, hle, hor⟩ := bootExisting_of_valid hcurrent
  refine ⟨booted, hbooted, hle, hor.imp_right fun hother => ?_⟩
  rw [SectorName.other_other, StoreFlash.get_set] at hother
  rcases hdata with hnone | hsome
  · rw [hnone] at hother
    cases hother
  · rw [hsome] at hother
    exact (Option.some.inj hother).symm

/-- A power cut anywhere inside a commit leaves the current roster or the
new one to the next boot. -/
theorem boots_commitCut {flash : StoreFlash} {current store : ControllerStore}
    (hboot : bootExisting flash = .ok current) (hstore : RosterOk store.slots)
    {cut : PowerCut} (htears : EraseTears flash store cut) :
    Boots (commitCut flash store cut) current store := by
  cases htarget : commitTarget flash store with
  | none =>
      simp only [commitCut, htarget]
      exact boots_same hboot store
  | some target =>
      simp only [commitCut, htarget]
      have hrecord := recordValid_encode ((rosterValid_iff _).mpr hstore)
      rcases cutImage_cases store cut (flash.get target) with
        ⟨-, -, himage⟩ | ⟨hdone, htorn⟩ | hnone | himage
      · rw [himage, StoreFlash.set_get]
        exact boots_same hboot store
      · rcases htears hdone _ htorn with hnone | hold
        · exact boots_set hboot htarget (.inl hnone)
        · rw [hold target htarget, StoreFlash.set_get]
          exact boots_same hboot store
      · exact boots_set hboot htarget (.inl hnone)
      · rw [himage]
        exact boots_set hboot htarget (.inr hrecord)

/-- The same of a commit that runs to its end, however
`flash_safe_execute` fares; and one that returns OK has the new roster
booted. -/
theorem boots_commit {flash : StoreFlash} {current store : ControllerStore}
    (hboot : bootExisting flash = .ok current) (hstore : RosterOk store.slots)
    (exec : FlashExec) :
    Boots (controllerStoreFlashCommit flash store exec).2 current store ∧
      ((controllerStoreFlashCommit flash store exec).1 = .ok () →
        bootExisting (controllerStoreFlashCommit flash store exec).2 = .ok store ∧
          current.generation < store.generation) := by
  have hrecord := recordValid_encode ((rosterValid_iff _).mpr hstore)
  cases htarget : commitTarget flash store with
  | none =>
      simp only [controllerStoreFlashCommit, htarget]
      exact ⟨boots_same hboot store, fun h => by cases h⟩
  | some target =>
      have hprogram : Boots (programSector flash target store) current store := by
        rw [programSector, programSector_run]
        exact boots_set hboot htarget (.inr hrecord)
      cases exec with
      | failed ran =>
          simp only [controllerStoreFlashCommit, htarget]
          refine ⟨?_, fun h => by cases h⟩
          cases ran with
          | true => exact hprogram
          | false => exact boots_same hboot store
      | ok =>
          have hprogram' := hprogram
          obtain ⟨booted, hbooted, hle, hor⟩ := hprogram
          simp only [controllerStoreFlashCommit, htarget, hbooted]
          refine ⟨hprogram', fun hok => ?_⟩
          have hne := (commitTarget_spec hboot htarget).2
          split at hok
          next hgen =>
            rcases hor with rfl | rfl
            · exact absurd hgen hne
            · exact ⟨rfl, UInt32.lt_of_le_of_ne hle hne⟩
          next => cases hok

-- ========================================================= admin changes

/-- The rosters an admin's add or revoke makes of a roster. -/
inductive Derives (store : ControllerStore) : ControllerStore → Prop
  | add {callerSlot : Nat} {key : Key} {role : UInt8} {store' : ControllerStore} {i : Fin 5} :
      controllerStoreAdd store callerSlot key role = .ok (store', i) → Derives store store'
  | revoke {callerSlot targetSlot : Nat} {store' : ControllerStore} :
      controllerStoreRevoke store callerSlot targetSlot = .ok store' → Derives store store'

theorem Derives.rosterOk {store store' : ControllerStore} (h : Derives store store')
    (hok : RosterOk store.slots) : RosterOk store'.slots := by
  cases h with
  | add h => exact rosterOk_add hok h
  | revoke h => exact rosterOk_revoke hok h

/-- From any two sectors that boot, for every roster an admin derives from
the booted one: a power cut at any point of its commit leaves the next
boot exactly the old roster or exactly the new one, and so does a commit
that is not cut, which has the new one booted if it returns OK. -/
theorem commit_power_fail_atomic {flash : StoreFlash} {store store' : ControllerStore}
    (hboot : bootExisting flash = .ok store) (hderives : Derives store store') :
    (∀ cut, EraseTears flash store' cut →
        bootExisting (commitCut flash store' cut) = .ok store ∨
          bootExisting (commitCut flash store' cut) = .ok store') ∧
      ∀ exec,
        (bootExisting (controllerStoreFlashCommit flash store' exec).2 = .ok store ∨
          bootExisting (controllerStoreFlashCommit flash store' exec).2 = .ok store') ∧
        ((controllerStoreFlashCommit flash store' exec).1 = .ok () →
          bootExisting (controllerStoreFlashCommit flash store' exec).2 = .ok store') := by
  have hok := hderives.rosterOk (bootExisting_roster hboot)
  refine ⟨fun cut htears => ?_, fun exec => ?_⟩
  · obtain ⟨booted, hbooted, -, rfl | rfl⟩ := boots_commitCut hboot hok htears
    · exact .inl hbooted
    · exact .inr hbooted
  · obtain ⟨⟨booted, hbooted, -, hor⟩, hret⟩ := boots_commit hboot hok exec
    refine ⟨?_, fun h => (hret h).1⟩
    rcases hor with rfl | rfl
    · exact .inl hbooted
    · exact .inr hbooted

-- ======================================================== the seeded flash

theorem recordValid_erased : recordValid (some erasedSector) = none := by
  have hmagic : leAt erasedSector 0 4 ≠ controllerStoreMagic := by decide
  simp only [recordValid, hmagic, ne_eq, not_false_eq_true, true_or, if_true]

/-- Flash with one record in sector A and sector B erased. -/
def seededFlash (recoveryPublicKey : Key) : StoreFlash :=
  ⟨controllerStoreEncode (seededStore recoveryPublicKey), erasedSector⟩

theorem recordValid_seeded {key : Key} (hkey : key ≠ zeroKey) :
    recordValid (some (controllerStoreEncode (seededStore key))) = some (seededStore key) :=
  recordValid_encode ((rosterValid_iff _).mpr (rosterOk_seeded hkey))

theorem boot_seededFlash {key : Key} (hkey : key ≠ zeroKey) :
    bootExisting (seededFlash key) = .ok (seededStore key) :=
  boot_left (recordValid_seeded hkey) recordValid_erased

/-- The recovery admin enrolling an operator: power lost right after the
commit's erase and first page. -/
theorem commit_power_fail_atomic_enrol :
    let store' := (seededStore (tagKey 1)).rewrite 1 ⟨controllerRoleOperator, tagKey 2⟩
    let cut := commitCut (seededFlash (tagKey 1)) store' ⟨2, none⟩
    bootExisting cut = .ok (seededStore (tagKey 1)) ∨ bootExisting cut = .ok store' :=
  (commit_power_fail_atomic (boot_seededFlash (by decide))
    (.add (by decide +kernel :
      controllerStoreAdd (seededStore (tagKey 1)) 0 (tagKey 2) controllerRoleOperator
        = .ok ((seededStore (tagKey 1)).rewrite 1 ⟨controllerRoleOperator, tagKey 2⟩, 1)))).1
    ⟨2, none⟩ fun h => absurd h (by decide)

end PicoBridge
