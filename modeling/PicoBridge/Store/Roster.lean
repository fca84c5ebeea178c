/-
`firmware/controller_store.c`, the operations on a roster: seeding,
lookup, enrolment and revocation.

`RosterOk` is what the checks of `record_valid` say of the slots, without
the loops they are computed by (`rosterValid_iff`). Every operation keeps
it, so a roster that was read from flash stays one that can be written
back and read again. `Enrolled` is what a roster means to everybody else:
which keys it lists.
-/
import PicoBridge.Store.Record

namespace PicoBridge

-- ===================================================== the constant-time loops

def zeroKey : Key := Vector.replicate 32 0

/-- The key whose bytes are all `tag`. -/
def tagKey (tag : UInt8) : Key := Vector.replicate 32 tag

theorem foldl_or_eq_zero (l : List UInt8) (a : UInt8) :
    l.foldl (· ||| ·) a = 0 ↔ a = 0 ∧ ∀ x ∈ l, x = 0 := by
  induction l generalizing a with
  | nil => simp
  | cons x l ih =>
      rw [List.foldl_cons, ih, UInt8.or_eq_zero_iff]
      simp [and_assoc]

theorem keyIsZero_iff (key : Key) : keyIsZero key ↔ key = zeroKey := by
  unfold keyIsZero
  rw [beq_iff_eq, foldl_or_eq_zero]
  constructor
  · rintro ⟨-, h⟩
    ext i hi
    rw [h key[i] (by simp), zeroKey, Vector.getElem_replicate]
  · rintro rfl
    refine ⟨rfl, fun x hx => ?_⟩
    rw [zeroKey, Vector.toList_replicate] at hx
    exact List.eq_of_mem_replicate hx

theorem foldl_diff_eq_zero (l : List (UInt8 × UInt8)) (a : UInt8) :
    l.foldl (fun d p => d ||| (p.1 ^^^ p.2)) a = 0 ↔ a = 0 ∧ ∀ p ∈ l, p.1 = p.2 := by
  induction l generalizing a with
  | nil => simp
  | cons p l ih =>
      rw [List.foldl_cons, ih, UInt8.or_eq_zero_iff, UInt8.xor_eq_zero_iff]
      simp [and_assoc]

theorem ctEqual_iff (left right : Key) : ctEqual left right ↔ left = right := by
  unfold ctEqual
  rw [beq_iff_eq, foldl_diff_eq_zero]
  constructor
  · rintro ⟨-, h⟩
    refine Vector.ext fun i hi => h (left[i], right[i]) ?_
    rw [List.mem_iff_getElem]
    exact ⟨i, by simpa using hi, by simp⟩
  · rintro rfl
    refine ⟨rfl, fun p hp => ?_⟩
    obtain ⟨i, hi, rfl⟩ := List.mem_iff_getElem.mp hp
    simp

-- ============================================================ the roster

/-- A slot is in use. -/
def ControllerSlot.used (slot : ControllerSlot) : Prop := slot.role ≠ controllerRoleNone

instance (slot : ControllerSlot) : Decidable slot.used :=
  inferInstanceAs (Decidable (_ ≠ _))

/-- What `record_valid` checks of the slots. -/
structure RosterOk (slots : Fin 5 → ControllerSlot) : Prop where
  known : ∀ i, roleValid (slots i).role
  keyed : ∀ i, (slots i).used ↔ (slots i).publicKey ≠ zeroKey
  distinct : ∀ i j, (slots i).used → (slots j).used →
    (slots i).publicKey = (slots j).publicKey → i = j
  recovery : ∀ i, (slots i).role = controllerRoleRecoveryAdmin ↔ i = 0

/-- One recovery admin, in slot 0, is slot 0 and no other. -/
theorem countP_recovery (slots : Fin 5 → ControllerSlot)
    (h0 : (slots 0).role = controllerRoleRecoveryAdmin) :
    (List.finRange 5).countP (fun i => (slots i).role == controllerRoleRecoveryAdmin) = 1 ↔
      ∀ i, (slots i).role = controllerRoleRecoveryAdmin ↔ i = 0 := by
  rw [List.finRange_succ, List.countP_cons, h0, beq_self_eq_true, if_pos rfl,
    Nat.add_eq_right, List.countP_eq_zero]
  constructor
  · intro h i
    refine ⟨fun hi => ?_, fun hi => by rw [hi, h0]⟩
    by_contra hne
    obtain ⟨j, rfl⟩ := Fin.exists_succ_eq.mpr hne
    exact h _ (List.mem_map.mpr ⟨j, List.mem_finRange j, rfl⟩) (beq_iff_eq.mpr hi)
  · intro h i hi
    obtain ⟨j, -, rfl⟩ := List.mem_map.mp hi
    rw [beq_iff_eq, h]
    exact Fin.succ_ne_zero j

theorem rosterValid_iff (slots : Fin 5 → ControllerSlot) :
    rosterValid slots ↔ RosterOk slots := by
  constructor
  · rintro ⟨hslots, h0, hcount⟩
    have hdistinct : ∀ i j, j < i → (slots i).used → (slots j).used →
        (slots i).publicKey ≠ (slots j).publicKey := fun i j hlt hi hj heq =>
      (hslots i).2.2 j hlt ⟨hi, hj, (ctEqual_iff _ _).mpr heq⟩
    refine ⟨fun i => (hslots i).1, fun i => ?_, fun i j hi hj heq => ?_,
      (countP_recovery slots h0).mp hcount⟩
    · rw [ControllerSlot.used, ne_eq, ne_eq, not_iff_not, ← keyIsZero_iff, (hslots i).2.1,
        decide_eq_true_eq]
    · rcases lt_trichotomy i j with hlt | heq' | hlt
      · exact absurd heq.symm (hdistinct j i hlt hj hi)
      · exact heq'
      · exact absurd heq (hdistinct i j hlt hi hj)
  · intro h
    have h0 := (h.recovery 0).mpr rfl
    refine ⟨fun i => ⟨h.known i, ?_, fun j hlt hboth => ?_⟩, h0,
      (countP_recovery slots h0).mpr h.recovery⟩
    · rw [Bool.eq_iff_iff, keyIsZero_iff, decide_eq_true_eq]
      exact (not_iff_not.mp (h.keyed i)).symm
    · have := h.distinct i j hboth.1 hboth.2.1 ((ctEqual_iff _ _).mp hboth.2.2)
      omega

/-- The roster lists a key. -/
def ControllerStore.Enrolled (store : ControllerStore) (key : Key) : Prop :=
  ∃ i, (store.slots i).used ∧ (store.slots i).publicKey = key

-- ========================================================= the operations

/-- A cleared slot. -/
def emptySlot : ControllerSlot := ⟨controllerRoleNone, zeroKey⟩

/-- The roster with the recovery admin alone. -/
def seededStore (recoveryPublicKey : Key) : ControllerStore where
  generation := 1
  slots := Function.update (fun _ => emptySlot) 0
    ⟨controllerRoleRecoveryAdmin, recoveryPublicKey⟩

/-- `controller_store_initialise`. -/
def controllerStoreInitialise (recoveryPublicKey : Key) :
    Except ControllerStoreError ControllerStore :=
  if keyIsZero recoveryPublicKey then .error .argument
  else .ok (seededStore recoveryPublicKey)

/-- `controller_store_find`: the slot and the role of a key. -/
def controllerStoreFind (store : ControllerStore) (publicKey : Key) :
    Except ControllerStoreError (Fin 5 × UInt8) :=
  match (List.finRange 5).find? fun i =>
      (store.slots i).used ∧ ctEqual (store.slots i).publicKey publicKey with
  | some i => .ok (i, (store.slots i).role)
  | none => .error .notFound

/-- `controller_store_is_admin`. -/
def controllerStoreIsAdmin (store : ControllerStore) (slot : Nat) : Bool :=
  if h : slot < 5 then
    (store.slots ⟨slot, h⟩).role == controllerRoleAdmin ||
      (store.slots ⟨slot, h⟩).role == controllerRoleRecoveryAdmin
  else false

/-- The roster with one slot rewritten and the generation counted up. -/
def ControllerStore.rewrite (store : ControllerStore) (i : Fin 5) (slot : ControllerSlot) :
    ControllerStore :=
  ⟨store.generation + 1, Function.update store.slots i slot⟩

@[simp] theorem rewrite_self (store : ControllerStore) (i : Fin 5) (slot : ControllerSlot) :
    (store.rewrite i slot).slots i = slot := by
  simp only [ControllerStore.rewrite, Function.update_self]

theorem rewrite_other (store : ControllerStore) {i j : Fin 5} (h : j ≠ i)
    (slot : ControllerSlot) : (store.rewrite i slot).slots j = store.slots j := by
  simp only [ControllerStore.rewrite, ne_eq, h, not_false_eq_true, Function.update_of_ne]

/-- `controller_store_add`: the new roster and the slot taken, the first
free one after the recovery admin's. -/
def controllerStoreAdd (store : ControllerStore) (callerSlot : Nat) (publicKey : Key)
    (role : UInt8) : Except ControllerStoreError (ControllerStore × Fin 5) :=
  if keyIsZero publicKey ∨ (role ≠ controllerRoleOperator ∧ role ≠ controllerRoleAdmin) then
    .error .argument
  else if ¬controllerStoreIsAdmin store callerSlot then .error .role
  else
    match controllerStoreFind store publicKey with
    | .ok _ => .error .duplicate
    | .error _ =>
        match [1, 2, 3, 4].find? fun i => ¬(store.slots i).used with
        | some i => .ok (store.rewrite i ⟨role, publicKey⟩, i)
        | none => .error .full

/-- `controller_store_revoke`. -/
def controllerStoreRevoke (store : ControllerStore) (callerSlot targetSlot : Nat) :
    Except ControllerStoreError ControllerStore :=
  if callerSlot ≥ 5 then .error .argument
  else if h : targetSlot < 5 then
    if ¬controllerStoreIsAdmin store callerSlot then .error .role
    else if targetSlot = 0 then .error .immutable
    else if ¬(store.slots ⟨targetSlot, h⟩).used then .error .notFound
    else .ok (store.rewrite ⟨targetSlot, h⟩ emptySlot)
  else .error .argument

-- ================================================================ lookup

/-- A key that is found is listed, under the role returned. -/
theorem controllerStoreFind_ok {store : ControllerStore} {key : Key} {i : Fin 5}
    {role : UInt8} (h : controllerStoreFind store key = .ok (i, role)) :
    (store.slots i).used ∧ (store.slots i).publicKey = key ∧ role = (store.slots i).role := by
  simp only [controllerStoreFind] at h
  split at h
  next j hfind =>
    cases h
    have := List.find?_some hfind
    simp only [decide_eq_true_eq, ctEqual_iff] at this
    exact ⟨this.1, this.2, rfl⟩
  next => cases h

/-- A key that is not found is not listed. -/
theorem controllerStoreFind_error {store : ControllerStore} {key : Key}
    {e : ControllerStoreError} (h : controllerStoreFind store key = .error e) :
    ¬store.Enrolled key := by
  simp only [controllerStoreFind] at h
  split at h
  next => cases h
  next hfind =>
    rintro ⟨i, hused, hkey⟩
    have := List.find?_eq_none.mp hfind i (List.mem_finRange i)
    simp only [decide_eq_true_eq, ctEqual_iff, hused, hkey, and_self, not_true_eq_false] at this

theorem controllerStoreFind_isOk {store : ControllerStore} {key : Key} :
    (∃ r, controllerStoreFind store key = .ok r) ↔ store.Enrolled key := by
  cases h : controllerStoreFind store key with
  | ok r =>
      obtain ⟨hused, hkey, -⟩ := controllerStoreFind_ok h
      exact ⟨fun _ => ⟨r.1, hused, hkey⟩, fun _ => ⟨r, rfl⟩⟩
  | error e =>
      exact ⟨fun ⟨r, hr⟩ => (by cases hr), fun h' => absurd h' (controllerStoreFind_error h)⟩

-- ================================================== what an operation does

/-- Enrolling: a fresh non-zero key goes into a free slot other than 0. -/
theorem controllerStoreAdd_ok {store store' : ControllerStore} {callerSlot : Nat} {key : Key}
    {role : UInt8} {i : Fin 5}
    (h : controllerStoreAdd store callerSlot key role = .ok (store', i)) :
    key ≠ zeroKey ∧ (role = controllerRoleOperator ∨ role = controllerRoleAdmin) ∧
      ¬store.Enrolled key ∧ i ≠ 0 ∧ ¬(store.slots i).used ∧
      store' = store.rewrite i ⟨role, key⟩ := by
  simp only [controllerStoreAdd] at h
  split at h
  next => cases h
  next harg =>
    rw [keyIsZero_iff, not_or] at harg
    split at h
    next => cases h
    next =>
      split at h
      next => cases h
      next hfind =>
        split at h
        next j hfree =>
          cases h
          have hmem := List.mem_of_find?_eq_some hfree
          have hunused := List.find?_some hfree
          refine ⟨harg.1, ?_, controllerStoreFind_error hfind, ?_, by simpa using hunused, rfl⟩
          · by_cases hop : role = controllerRoleOperator
            · exact .inl hop
            · exact .inr (not_not.mp fun had => harg.2 ⟨hop, had⟩)
          · rintro rfl
            revert hmem
            decide
        next => cases h

/-- Revoking: a used slot other than 0 is cleared. -/
theorem controllerStoreRevoke_ok {store store' : ControllerStore} {callerSlot targetSlot : Nat}
    (h : controllerStoreRevoke store callerSlot targetSlot = .ok store') :
    ∃ i : Fin 5, i.val = targetSlot ∧ i ≠ 0 ∧ (store.slots i).used ∧
      store' = store.rewrite i emptySlot := by
  simp only [controllerStoreRevoke] at h
  split at h
  next => cases h
  next =>
    split at h
    next hlt =>
      split at h
      next => cases h
      next =>
        split at h
        next => cases h
        next h0 =>
          split at h
          next => cases h
          next hused =>
            cases h
            refine ⟨⟨targetSlot, hlt⟩, rfl, fun heq => h0 ?_, not_not.mp hused, rfl⟩
            exact congrArg Fin.val heq
    next => cases h

-- ==================================================== the roster checks kept

theorem initialise_ok {key : Key} (h : key ≠ zeroKey) :
    controllerStoreInitialise key = .ok (seededStore key) :=
  if_neg fun hz => h ((keyIsZero_iff key).mp hz)

theorem emptySlot_used : ¬emptySlot.used := fun h => h rfl

/-- Rewriting a slot other than 0 keeps the roster checks when the new
slot is empty or carries a fresh key under a daily role. -/
theorem RosterOk.update {slots : Fin 5 → ControllerSlot} (h : RosterOk slots) {i : Fin 5}
    (hi : i ≠ 0) {slot : ControllerSlot} (hknown : roleValid slot.role)
    (hkeyed : slot.used ↔ slot.publicKey ≠ zeroKey)
    (hdaily : slot.role ≠ controllerRoleRecoveryAdmin)
    (hfresh : slot.used → ∀ j, (slots j).used → (slots j).publicKey ≠ slot.publicKey) :
    RosterOk (Function.update slots i slot) where
  known j := by
    by_cases hj : j = i
    · rw [hj, Function.update_self]
      exact hknown
    · rw [Function.update_of_ne hj]
      exact h.known j
  keyed j := by
    by_cases hj : j = i
    · rw [hj, Function.update_self]
      exact hkeyed
    · rw [Function.update_of_ne hj]
      exact h.keyed j
  distinct j k hj hk heq := by
    by_cases hji : j = i
    · by_cases hki : k = i
      · rw [hji, hki]
      · rw [hji, Function.update_self] at hj heq
        rw [Function.update_of_ne hki] at hk heq
        exact absurd heq.symm (hfresh hj k hk)
    · rw [Function.update_of_ne hji] at hj heq
      by_cases hki : k = i
      · rw [hki, Function.update_self] at hk heq
        exact absurd heq (hfresh hk j hj)
      · rw [Function.update_of_ne hki] at hk heq
        exact h.distinct j k hj hk heq
  recovery j := by
    by_cases hj : j = i
    · rw [hj, Function.update_self]
      exact ⟨fun hr => absurd hr hdaily, fun h0 => absurd h0 hi⟩
    · rw [Function.update_of_ne hj]
      exact h.recovery j

@[simp] theorem seededStore_zero (key : Key) :
    (seededStore key).slots 0 = ⟨controllerRoleRecoveryAdmin, key⟩ := by
  simp only [seededStore, Function.update_self]

theorem seededStore_daily (key : Key) {j : Fin 5} (hj : j ≠ 0) :
    (seededStore key).slots j = emptySlot := by
  simp only [seededStore, ne_eq, hj, not_false_eq_true, Function.update_of_ne]

theorem seededStore_used (key : Key) (j : Fin 5) :
    ((seededStore key).slots j).used ↔ j = 0 := by
  by_cases hj : j = 0
  · rw [hj, seededStore_zero]
    have hrole : controllerRoleRecoveryAdmin ≠ controllerRoleNone := by decide
    exact ⟨fun _ => rfl, fun _ => hrole⟩
  · rw [seededStore_daily key hj]
    exact ⟨fun hu => absurd hu emptySlot_used, fun h0 => absurd h0 hj⟩

theorem rosterOk_seeded {key : Key} (hkey : key ≠ zeroKey) :
    RosterOk (seededStore key).slots where
  known j := by
    by_cases hj : j = 0
    · rw [hj, seededStore_zero]
      rfl
    · rw [seededStore_daily key hj]
      rfl
  keyed j := by
    rw [seededStore_used]
    by_cases hj : j = 0
    · rw [hj, seededStore_zero]
      exact ⟨fun _ => hkey, fun _ => rfl⟩
    · rw [seededStore_daily key hj]
      exact ⟨fun h0 => absurd h0 hj, fun hne => absurd rfl hne⟩
  distinct j k hj hk _ := by
    rw [(seededStore_used key j).mp hj, (seededStore_used key k).mp hk]
  recovery j := by
    by_cases hj : j = 0
    · rw [hj, seededStore_zero]
      exact ⟨fun _ => rfl, fun _ => rfl⟩
    · rw [seededStore_daily key hj]
      exact ⟨fun hr => absurd hr (by decide), fun h0 => absurd h0 hj⟩

/-- Enrolling keeps the roster checks. -/
theorem rosterOk_add {store store' : ControllerStore} (hok : RosterOk store.slots)
    {callerSlot : Nat} {key : Key} {role : UInt8} {i : Fin 5}
    (h : controllerStoreAdd store callerSlot key role = .ok (store', i)) :
    RosterOk store'.slots := by
  obtain ⟨hkey, hrole, hfresh, hi, -, rfl⟩ := controllerStoreAdd_ok h
  have hdaily : role ≠ controllerRoleNone ∧ role ≠ controllerRoleRecoveryAdmin := by
    rcases hrole with rfl | rfl <;> decide
  refine hok.update hi ?_ ⟨fun _ => hkey, fun _ => hdaily.1⟩ hdaily.2 fun _ j hj heq => ?_
  · rcases hrole with rfl | rfl <;> rfl
  · exact hfresh ⟨j, hj, heq⟩

/-- Revoking keeps the roster checks. -/
theorem rosterOk_revoke {store store' : ControllerStore} (hok : RosterOk store.slots)
    {callerSlot targetSlot : Nat}
    (h : controllerStoreRevoke store callerSlot targetSlot = .ok store') :
    RosterOk store'.slots := by
  obtain ⟨i, -, hi, -, rfl⟩ := controllerStoreRevoke_ok h
  refine hok.update hi rfl ?_ (by decide) fun hu => absurd hu emptySlot_used
  exact ⟨fun hu => absurd hu emptySlot_used, fun hne => absurd rfl hne⟩

-- ============================================================ who is listed

/-- What clearing a slot takes off a roster whose keys are distinct: the
slot's key, and no other. -/
theorem cleared_enrolled {store : ControllerStore} (hok : RosterOk store.slots) {i : Fin 5}
    (hused : (store.slots i).used) :
    ¬(store.rewrite i emptySlot).Enrolled (store.slots i).publicKey := by
  rintro ⟨j, hj, hkey⟩
  by_cases hji : j = i
  · rw [hji, rewrite_self] at hj
    exact emptySlot_used hj
  · rw [rewrite_other store hji] at hj hkey
    exact hji (hok.distinct j i hj hused hkey)

theorem enrolled_of_cleared {store : ControllerStore} {i : Fin 5} {key : Key}
    (h : (store.rewrite i emptySlot).Enrolled key) : store.Enrolled key := by
  obtain ⟨j, hj, hkey⟩ := h
  by_cases hji : j = i
  · rw [hji, rewrite_self] at hj
    exact absurd hj emptySlot_used
  · rw [rewrite_other store hji] at hj hkey
    exact ⟨j, hj, hkey⟩

/-- The other keys are found where they were, under the roles they had. -/
theorem controllerStoreFind_cleared {store : ControllerStore} {i : Fin 5} {key : Key}
    (hne : key ≠ (store.slots i).publicKey) :
    controllerStoreFind (store.rewrite i emptySlot) key = controllerStoreFind store key := by
  have htest : (fun j => decide (((store.rewrite i emptySlot).slots j).used ∧
        ctEqual ((store.rewrite i emptySlot).slots j).publicKey key))
      = fun j => decide ((store.slots j).used ∧ ctEqual (store.slots j).publicKey key) := by
    funext j
    by_cases hj : j = i
    · rw [hj, rewrite_self, decide_eq_decide, ctEqual_iff, ctEqual_iff]
      exact ⟨fun h => absurd h.1 emptySlot_used, fun h => absurd h.2.symm hne⟩
    · rw [rewrite_other store hj]
  unfold controllerStoreFind
  rw [htest]
  cases hfind : (List.finRange 5).find? fun j =>
      decide ((store.slots j).used ∧ ctEqual (store.slots j).publicKey key) with
  | none => rfl
  | some j =>
      have hj : j ≠ i := by
        rintro rfl
        have := List.find?_some hfind
        rw [decide_eq_true_eq, ctEqual_iff] at this
        exact hne this.2.symm
      dsimp only
      rw [rewrite_other store hj]

/-- Enrolling lists the new key besides the ones that were listed. -/
theorem enrolled_of_added {store : ControllerStore} {i : Fin 5} {role : UInt8} {added key : Key}
    (h : (store.rewrite i ⟨role, added⟩).Enrolled key) : store.Enrolled key ∨ added = key := by
  obtain ⟨j, hj, hkey⟩ := h
  by_cases hji : j = i
  · rw [hji, rewrite_self] at hkey
    exact .inr hkey
  · rw [rewrite_other store hji] at hj hkey
    exact .inl ⟨j, hj, hkey⟩

end PicoBridge
