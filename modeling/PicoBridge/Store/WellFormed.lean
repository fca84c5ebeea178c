/-
Well-formed rosters: what `record_valid` lets in, what the operations
keep, and that the two are the same.

# The condition in two places

`WellFormed` says of a roster what it is meant to be, slot by slot. The
validator computes it with a nested loop and a count (`rosterValid`), the
mutators by what they refuse. `wellFormed_iff` says that the validator's
is exactly this one, and `step_wellFormed` that no call leaves it, so that
neither can drift from the other.

# What is modelled how

- A buffer is the bytes it holds, or null; `record_valid` reads one that
  is at least a record long.
- `controller_role_t` is an integer here: what is stored of it is a byte,
  but the test is made before.
- A call of ADD or REVOKE is one step of `storeMachine`. Its output is
  the status, none for OK, and its state what `*store` holds after it.
-/
import PicoBridge.Lib.Machine
import PicoBridge.Store.Roster

namespace PicoBridge

open Lib (Machine)

-- ======================================================= well-formed rosters

/-- Slot 0 is the recovery admin's, every other slot is empty or a daily
controller's, and no two controllers share a key. -/
structure WellFormed (slots : Fin 5 → ControllerSlot) : Prop where
  recovery : (slots 0).role = controllerRoleRecoveryAdmin ∧ (slots 0).publicKey ≠ zeroKey
  daily : ∀ i, i ≠ 0 →
    (slots i).role = controllerRoleNone ∧ (slots i).publicKey = zeroKey ∨
    ((slots i).role = controllerRoleOperator ∨ (slots i).role = controllerRoleAdmin) ∧
      (slots i).publicKey ≠ zeroKey
  distinct : ∀ i j, (slots i).used → (slots j).used →
    (slots i).publicKey = (slots j).publicKey → i = j

theorem roleValid_iff (role : UInt8) :
    roleValid role ↔ role = controllerRoleNone ∨ role = controllerRoleOperator ∨
      role = controllerRoleAdmin ∨ role = controllerRoleRecoveryAdmin := by
  unfold roleValid
  simp only [Bool.or_eq_true, beq_iff_eq, or_assoc]

theorem wellFormed_rosterOk (slots : Fin 5 → ControllerSlot) :
    WellFormed slots ↔ RosterOk slots := by
  have hroles : controllerRoleOperator ≠ controllerRoleNone ∧
      controllerRoleAdmin ≠ controllerRoleNone ∧
      controllerRoleRecoveryAdmin ≠ controllerRoleNone ∧
      controllerRoleNone ≠ controllerRoleRecoveryAdmin ∧
      controllerRoleOperator ≠ controllerRoleRecoveryAdmin ∧
      controllerRoleAdmin ≠ controllerRoleRecoveryAdmin := by decide
  obtain ⟨hoperator, hadmin, hrecovery, hnone', hoperator', hadmin'⟩ := hroles
  constructor
  · intro h
    refine ⟨fun i => ?_, fun i => ?_, h.distinct, fun i => ?_⟩
    · rw [roleValid_iff]
      by_cases hi : i = 0
      · rw [hi, h.recovery.1]
        simp
      · rcases h.daily i hi with ⟨hnone, -⟩ | ⟨hop | had, -⟩
        · exact .inl hnone
        · exact .inr (.inl hop)
        · exact .inr (.inr (.inl had))
    · unfold ControllerSlot.used
      by_cases hi : i = 0
      · rw [hi, h.recovery.1]
        exact iff_of_true hrecovery h.recovery.2
      · rcases h.daily i hi with ⟨hnone, hkey⟩ | ⟨hop | had, hkey⟩
        · exact iff_of_false (not_not_intro hnone) (not_not_intro hkey)
        · rw [hop]
          exact iff_of_true hoperator hkey
        · rw [had]
          exact iff_of_true hadmin hkey
    · by_cases hi : i = 0
      · rw [hi]
        exact iff_of_true h.recovery.1 rfl
      · refine iff_of_false ?_ hi
        rcases h.daily i hi with ⟨hnone, -⟩ | ⟨hop | had, -⟩
        · rw [hnone]
          exact hnone'
        · rw [hop]
          exact hoperator'
        · rw [had]
          exact hadmin'
  · intro h
    have hzero : (slots 0).role = controllerRoleRecoveryAdmin := (h.recovery 0).mpr rfl
    refine ⟨⟨hzero, (h.keyed 0).mp ?_⟩, fun i hi => ?_, h.distinct⟩
    · unfold ControllerSlot.used
      rw [hzero]
      exact hrecovery
    · rcases (roleValid_iff _).mp (h.known i) with hnone | hop | had | hrec
      · exact .inl ⟨hnone, not_not.mp fun hkey => (h.keyed i).mpr hkey hnone⟩
      · refine .inr ⟨.inl hop, (h.keyed i).mp ?_⟩
        unfold ControllerSlot.used
        rw [hop]
        exact hoperator
      · refine .inr ⟨.inr had, (h.keyed i).mp ?_⟩
        unfold ControllerSlot.used
        rw [had]
        exact hadmin
      · exact absurd ((h.recovery i).mp hrec) hi

/-- The checks of `record_valid` are those of a well-formed roster. -/
theorem wellFormed_iff (slots : Fin 5 → ControllerSlot) : WellFormed slots ↔ rosterValid slots :=
  (wellFormed_rosterOk slots).trans (rosterValid_iff slots).symm

-- ============================================================== the buffers

/-- A buffer as a sector. Nothing reads beyond its end. -/
def sectorOf (data : List UInt8) : Sector := fun i => data.getD i 0xff

/-- What is read of a buffer: a whole record, or nothing of it. -/
def readable : Option (List UInt8) → Option Sector
  | none => none
  | some data => if data.length < recordSize then none else some (sectorOf data)

/-- `controller_store_boot` on two buffers. -/
def controllerStoreBootIn (sectorA sectorB : Option (List UInt8)) :
    Except ControllerStoreError ControllerStore :=
  controllerStoreBoot (readable sectorA) (readable sectorB)

/-- `controller_store_encode` into a buffer of `outLen` bytes. -/
def controllerStoreEncodeInto (store : ControllerStore) (outLen : Nat) :
    Except ControllerStoreError (List UInt8) :=
  if outLen < recordSize then .error .argument
  else
    .ok ((List.range outLen).map fun k =>
      if k < recordSize then byteAt (controllerStoreEncode store) k else 0xff)

theorem readable_some {data : List UInt8} (h : recordSize ≤ data.length) :
    readable (some data) = some (sectorOf data) := if_neg (Nat.not_lt.mpr h)

theorem readable_encodeInto {store : ControllerStore} {outLen : Nat} (h : recordSize ≤ outLen) :
    ∃ image, controllerStoreEncodeInto store outLen = .ok image ∧
      readable (some image) = some (controllerStoreEncode store) := by
  refine ⟨_, if_neg (Nat.not_lt.mpr h), ?_⟩
  have hlength : ((List.range outLen).map fun k =>
      if k < recordSize then byteAt (controllerStoreEncode store) k else 0xff).length = outLen := by
    rw [List.length_map, List.length_range]
  rw [readable_some (by rw [hlength]; exact h)]
  refine congrArg some (funext fun i => ?_)
  have hpast : ∀ k : Fin 4096, recordSize ≤ k.val → controllerStoreEncode store k = 0xff := by
    intro k hk
    simp only [recordSize] at hk
    unfold controllerStoreEncode
    rw [if_neg (by simp only [crcOffset]; omega), if_neg (by simp only [commitOffset]; omega),
      if_neg (by simp only [recordSize]; omega)]
  rw [sectorOf, List.getD_eq_getElem?_getD]
  by_cases hin : i.val < outLen
  · rw [List.getElem?_map, List.getElem?_range hin]
    simp only [Option.map_some, Option.getD_some]
    by_cases hrecord : i.val < recordSize
    · rw [if_pos hrecord, byteAt_eq _ i.isLt]
    · rw [if_neg hrecord, hpast i (Nat.not_lt.mp hrecord)]
  · have hlong : recordSize ≤ i.val := Nat.le_trans h (Nat.not_lt.mp hin)
    rw [List.getElem?_eq_none (by simpa using hin), hpast i hlong]
    rfl

/-- A loaded roster was let in by the validator. -/
theorem boot_valid {a b : Option Sector} {store : ControllerStore}
    (h : controllerStoreBoot a b = .ok store) :
    recordValid a = some store ∨ recordValid b = some store := by
  unfold controllerStoreBoot at h
  cases ha : recordValid a with
  | none =>
      cases hb : recordValid b with
      | none => simp [ha, hb] at h
      | some sb =>
          simp only [ha, hb] at h
          cases h
          exact .inr rfl
  | some sa =>
      cases hb : recordValid b with
      | none =>
          simp only [ha, hb] at h
          cases h
          exact .inl rfl
      | some sb =>
          simp only [ha, hb] at h
          cases h
          split
          · exact .inl rfl
          · exact .inr rfl

-- ================================================================ the calls

/-- A call of `controller_store_add` or `controller_store_revoke`. -/
inductive StoreCall
  | add (callerSlot : Nat) (publicKey : Option Key) (role : Nat)
  | revoke (callerSlot targetSlot : Nat)

/-- What a call makes of a roster. -/
def StoreCall.result (store : ControllerStore) :
    StoreCall → Except ControllerStoreError ControllerStore
  | .add _ none _ => .error .argument
  | .add callerSlot (some publicKey) role =>
      if role ≠ controllerRoleOperator.toNat ∧ role ≠ controllerRoleAdmin.toNat then
        .error .argument
      else (controllerStoreAdd store callerSlot publicKey (UInt8.ofNat role)).map Prod.fst
  | .revoke callerSlot targetSlot => controllerStoreRevoke store callerSlot targetSlot

/-- The roster after a call, and the call's error. -/
def storeMachine : Machine ControllerStore StoreCall (Option ControllerStoreError) where
  step store c :=
    match c.result store with
    | .error e => (store, [some e])
    | .ok store' => (store', [none])

/-- A call that succeeds rewrites one slot other than 0: a free one with a
controller, or a used one with nothing. -/
theorem result_ok {store store' : ControllerStore} {c : StoreCall}
    (h : c.result store = .ok store') :
    ∃ i slot, i ≠ 0 ∧ ((store.slots i).used ↔ ¬slot.used) ∧ store' = store.rewrite i slot := by
  cases c with
  | add callerSlot publicKey role =>
      cases publicKey with
      | none => cases h
      | some key =>
          simp only [StoreCall.result] at h
          split at h
          next => cases h
          next =>
            cases hadd : controllerStoreAdd store callerSlot key (UInt8.ofNat role) with
            | error e =>
                rw [hadd] at h
                cases h
            | ok r =>
                rw [hadd] at h
                cases h
                obtain ⟨-, hrole, -, hi, hfree, hstore⟩ := controllerStoreAdd_ok hadd
                refine ⟨r.2, ⟨UInt8.ofNat role, key⟩, hi, ?_, hstore⟩
                refine iff_of_false hfree (not_not_intro ?_)
                show UInt8.ofNat role ≠ controllerRoleNone
                rcases hrole with hrole | hrole
                · rw [hrole]
                  decide
                · rw [hrole]
                  decide
  | revoke callerSlot targetSlot =>
      obtain ⟨i, -, hi, hused, hstore⟩ := controllerStoreRevoke_ok h
      exact ⟨i, emptySlot, hi, iff_of_true hused emptySlot_used, hstore⟩

/-- A call keeps a roster well formed. -/
theorem step_wellFormed {store : ControllerStore} (h : WellFormed store.slots) (c : StoreCall) :
    WellFormed (storeMachine.step store c).1.slots := by
  have hok : RosterOk store.slots := (wellFormed_rosterOk _).mp h
  suffices hkept : ∀ store', c.result store = .ok store' → RosterOk store'.slots by
    unfold storeMachine
    dsimp only
    split
    next => exact h
    next store' hresult =>
      apply (wellFormed_rosterOk _).mpr
      exact hkept store' hresult
  intro store' hresult
  cases c with
  | add callerSlot publicKey role =>
      cases publicKey with
      | none => cases hresult
      | some key =>
          simp only [StoreCall.result] at hresult
          split at hresult
          next => cases hresult
          next =>
            cases hadd : controllerStoreAdd store callerSlot key (UInt8.ofNat role) with
            | error e =>
                rw [hadd] at hresult
                cases hresult
            | ok r =>
                rw [hadd] at hresult
                cases hresult
                exact rosterOk_add hok hadd
  | revoke callerSlot targetSlot => exact rosterOk_revoke hok hresult

/-- What a call does to a roster: nothing where it fails, and where it
succeeds one slot other than 0 and the generation move. -/
theorem step_changes (store : ControllerStore) (c : StoreCall) :
    (∃ e, storeMachine.step store c = (store, [some e])) ∨
      ∃ store', storeMachine.step store c = (store', [none]) ∧
        store'.generation = store.generation + 1 ∧
        ∃ i, i ≠ 0 ∧ store'.slots i ≠ store.slots i ∧
          ∀ j, j ≠ i → store'.slots j = store.slots j := by
  unfold storeMachine
  dsimp only
  cases hresult : c.result store with
  | error e => exact .inl ⟨e, rfl⟩
  | ok store' =>
      obtain ⟨i, slot, hi, hused, rfl⟩ := result_ok hresult
      refine .inr ⟨_, rfl, rfl, i, hi, ?_, fun j hj => rewrite_other store hj slot⟩
      rw [rewrite_self]
      intro heq
      rw [heq] at hused
      exact iff_not_self hused

/-- Every roster is well formed: one that is initialised, one that is
loaded from any two buffers, and one that any calls make of a well-formed
one. A call that fails changes nothing; one that succeeds changes one slot
other than 0 and adds 1 to the generation. And a well-formed roster is
loaded from its encoding, in a buffer of any length that fits it, and in
either position beside a sector that holds no record. -/
theorem rosters_wellFormed :
    (∀ key store, controllerStoreInitialise key = .ok store → WellFormed store.slots) ∧
    (∀ a b store, controllerStoreBootIn a b = .ok store → WellFormed store.slots) ∧
    (∀ store, WellFormed store.slots → ∀ calls,
      WellFormed (storeMachine.final store calls).slots) ∧
    (∀ store call,
      (∃ e, storeMachine.step store call = (store, [some e])) ∨
        ∃ store', storeMachine.step store call = (store', [none]) ∧
          store'.generation = store.generation + 1 ∧
          ∃ i, i ≠ 0 ∧ store'.slots i ≠ store.slots i ∧
            ∀ j, j ≠ i → store'.slots j = store.slots j) ∧
    (∀ store, WellFormed store.slots → ∀ outLen, recordSize ≤ outLen →
      ∃ image, controllerStoreEncodeInto store outLen = .ok image ∧
        ∀ other, recordValid (readable other) = none →
          controllerStoreBootIn (some image) other = .ok store ∧
            controllerStoreBootIn other (some image) = .ok store) := by
  refine ⟨fun key store h => ?_, fun a b store h => ?_, fun store h calls => ?_, step_changes,
    fun store h outLen hlen => ?_⟩
  · unfold controllerStoreInitialise at h
    split at h
    next => cases h
    next hkey =>
      cases h
      rw [keyIsZero_iff] at hkey
      exact (wellFormed_rosterOk _).mpr (rosterOk_seeded hkey)
  · apply (wellFormed_iff _).mpr
    rcases boot_valid h with ha | hb
    · exact recordValid_roster ha
    · exact recordValid_roster hb
  · exact storeMachine.final_inv (P := fun store => WellFormed store.slots)
      (fun _ c h => step_wellFormed h c) h calls
  · obtain ⟨image, himage, hreadable⟩ := @readable_encodeInto store outLen hlen
    have hread : recordValid (readable (some image)) = some store := by
      rw [hreadable]
      exact recordValid_encode ((wellFormed_iff _).mp h)
    refine ⟨image, himage, fun other hother => ?_⟩
    unfold controllerStoreBootIn controllerStoreBoot
    rw [hread, hother]
    exact ⟨rfl, rfl⟩

/-- A free slot is found for a second controller. -/
example : storeMachine.trace (seededStore (tagKey 1))
    [.add 0 (some (tagKey 2)) 2, .add 1 (some (tagKey 2)) 1, .revoke 1 0]
      = [none, some .duplicate, some .immutable] := by decide

end PicoBridge
