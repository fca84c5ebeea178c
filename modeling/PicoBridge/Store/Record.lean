/-
`firmware/controller_store.c`: the roster, its on-flash record and the
choice between two sectors.

# What is modelled how

- A 4 KiB sector is a function of the offset. A record is read off its
  bytes at the offsets of `controller_store_record_t` (the padding bytes
  177 to 179 included, which the CRC covers) and written back to them;
  integers are little-endian as on the target.
- A null sector pointer is `none`; the code passes either a whole sector
  or null with length 0. Null `store` and `out` pointers are not passed
  by any caller and not modelled.
- `controller_slot_t` keeps the role as the byte it is, checked by
  `role_valid` on the way in.

# The round trip

`recordValid_encode`: a roster that passes the checks of `record_valid`
is read back from its own encoding. `recordValid_commit` is the other
fact the flash code needs: without all four commit bytes there is no
record.
-/
import Mathlib.Data.Fintype.Pi
import Mathlib.Tactic

namespace PicoBridge

-- =========================================================== constants

def controllerStoreSlotCount : Nat := 5
def controllerStoreSchema : Nat := 1
def controllerStoreMagic : Nat := 0x50424353
def controllerStoreCommit : Nat := 0x43534d54

def controllerRoleNone : UInt8 := 0
def controllerRoleOperator : UInt8 := 1
def controllerRoleAdmin : UInt8 := 2
def controllerRoleRecoveryAdmin : UInt8 := 3

/-- `controller_store_status_t` without its `OK`. -/
inductive ControllerStoreError
  | argument
  | format
  | full
  | duplicate
  | role
  | immutable
  | notFound
  deriving DecidableEq, Repr

/-- A public key. -/
abbrev Key := Vector UInt8 32

/-- `controller_slot_t`. -/
structure ControllerSlot where
  role : UInt8
  publicKey : Key
  deriving DecidableEq

/-- There is a slot 0: the literals that name a slot all rest on this. -/
instance fiveSlots : NeZero 5 := ⟨by decide⟩

/-- `controller_store_t`. -/
structure ControllerStore where
  generation : UInt32
  slots : Fin 5 → ControllerSlot
  deriving DecidableEq

-- ============================================================ the checks

/-- `role_valid`. -/
def roleValid (role : UInt8) : Bool :=
  role == controllerRoleNone || role == controllerRoleOperator ||
    role == controllerRoleAdmin || role == controllerRoleRecoveryAdmin

/-- `key_is_zero`: the bytes or-ed together. -/
def keyIsZero (key : Key) : Bool :=
  key.toList.foldl (· ||| ·) 0 == 0

/-- `ct_equal` on keys: the differences or-ed together. -/
def ctEqual (left right : Key) : Bool :=
  (left.toList.zip right.toList).foldl (fun d p => d ||| (p.1 ^^^ p.2)) 0 == 0

/-- The roster checks of `record_valid`: every role is known, exactly
the used slots have a key, no two used slots share one, and the recovery
admin is in slot 0 and nowhere else. -/
def rosterValid (slots : Fin 5 → ControllerSlot) : Prop :=
  (∀ i, roleValid (slots i).role ∧
      keyIsZero (slots i).publicKey = decide ((slots i).role = controllerRoleNone) ∧
      ∀ j < i, ¬((slots i).role ≠ controllerRoleNone ∧ (slots j).role ≠ controllerRoleNone ∧
        ctEqual (slots i).publicKey (slots j).publicKey)) ∧
    (slots 0).role = controllerRoleRecoveryAdmin ∧
    (List.finRange 5).countP (fun i => (slots i).role == controllerRoleRecoveryAdmin) = 1

instance (slots : Fin 5 → ControllerSlot) : Decidable (rosterValid slots) :=
  inferInstanceAs (Decidable (_ ∧ _ ∧ _))

/-- One bit of `crc32`. -/
def crcBit (crc : UInt32) : UInt32 :=
  (crc >>> 1) ^^^ (0xedb88320 &&& (0 - (crc &&& 1)))

/-- `crc32`: the reflected 0xedb88320 polynomial, bit by bit. -/
def crc32 (data : List UInt8) : UInt32 :=
  ~~~data.foldl (fun crc byte => crcBit^[8] (crc ^^^ byte.toUInt32)) 0xffffffff

-- ============================================================ the layout

/-- `FLASH_SECTOR_SIZE` bytes. -/
abbrev Sector := Fin 4096 → UInt8

/-- The byte at an offset. -/
def byteAt (data : Sector) (offset : Nat) : UInt8 := data (Fin.ofNat 4096 offset)

/-- The `n`-byte little-endian integer at an offset. -/
def leAt (data : Sector) (offset : Nat) : Nat → Nat
  | 0 => 0
  | n + 1 => (byteAt data offset).toNat + 256 * leAt data (offset + 1) n

/-- Byte `k` of an integer, little-endian. -/
def leByte (n k : Nat) : UInt8 := UInt8.ofNat (n / 256 ^ k)

/-- `n` bytes of an integer, little-endian. -/
def leBytes (n value : Nat) : List UInt8 := (List.range n).map (leByte value)

/-- `offsetof(controller_store_record_t, slots)`. -/
def slotsOffset : Nat := 12

/-- `sizeof(controller_slot_t)`. -/
def slotSize : Nat := 33

/-- `offsetof(controller_store_record_t, crc32)`. -/
def crcOffset : Nat := 180

/-- `offsetof(controller_store_record_t, commit)`. -/
def commitOffset : Nat := 184

/-- `sizeof(controller_store_record_t)`. -/
def recordSize : Nat := 188

/-- The slots of a record. -/
def slotsAt (data : Sector) (i : Fin 5) : ControllerSlot where
  role := byteAt data (slotsOffset + slotSize * i)
  publicKey := Vector.ofFn fun j => byteAt data (slotsOffset + slotSize * i + 1 + j)

/-- The bytes of a record that its CRC covers. -/
def crcRegion (data : Sector) : List UInt8 := (List.range crcOffset).map (byteAt data)

/-- `record_valid`, with the store it leaves in `*out`. -/
def recordValid : Option Sector → Option ControllerStore
  | none => none
  | some data =>
      if leAt data 0 4 ≠ controllerStoreMagic ∨ leAt data 4 2 ≠ controllerStoreSchema ∨
          leAt data 6 2 ≠ 0 ∨ leAt data commitOffset 4 ≠ controllerStoreCommit ∨
          UInt32.ofNat (leAt data crcOffset 4) ≠ crc32 (crcRegion data) then none
      else if rosterValid (slotsAt data) then
        some ⟨UInt32.ofNat (leAt data 8 4), slotsAt data⟩
      else none

/-- `controller_store_boot`: the valid sector with the higher generation,
the first on a tie. -/
def controllerStoreBoot (sectorA sectorB : Option Sector) :
    Except ControllerStoreError ControllerStore :=
  match recordValid sectorA, recordValid sectorB with
  | none, none => .error .format
  | some a, none => .ok a
  | none, some b => .ok b
  | some a, some b => .ok (if a.generation ≥ b.generation then a else b)

/-- A byte of a slot. -/
def ControllerSlot.byte (slot : ControllerSlot) (k : Nat) : UInt8 :=
  if k = 0 then slot.role else slot.publicKey.toList.getD (k - 1) 0

/-- The bytes `controller_store_encode` writes below the CRC. -/
def recordByte (store : ControllerStore) (k : Nat) : UInt8 :=
  if k < 4 then leByte controllerStoreMagic k
  else if k < 6 then leByte controllerStoreSchema (k - 4)
  else if k < 8 then 0
  else if k < slotsOffset then leByte store.generation.toNat (k - 8)
  else if h : (k - slotsOffset) / slotSize < 5 then
    (store.slots ⟨(k - slotsOffset) / slotSize, h⟩).byte ((k - slotsOffset) % slotSize)
  else 0xff

/-- `controller_store_encode` into a whole sector. -/
def controllerStoreEncode (store : ControllerStore) : Sector := fun i =>
  if i.val < crcOffset then recordByte store i
  else if i.val < commitOffset then
    leByte (crc32 ((List.range crcOffset).map (recordByte store))).toNat (i - crcOffset)
  else if i.val < recordSize then leByte controllerStoreCommit (i - commitOffset)
  else 0xff

-- ========================================================= reading back

theorem byteAt_eq (data : Sector) {k : Nat} (h : k < 4096) : byteAt data k = data ⟨k, h⟩ := by
  unfold byteAt
  congr 1
  exact Fin.ext (Nat.mod_eq_of_lt h)

theorem byteAt_encode_record (store : ControllerStore) {k : Nat} (h : k < crcOffset) :
    byteAt (controllerStoreEncode store) k = recordByte store k := by
  have hk : k < 4096 := Nat.lt_trans h (by decide)
  rw [byteAt_eq _ hk]
  exact if_pos h

/-- A four-byte integer is put together from its bytes. -/
theorem leAt_four {data : Sector} {offset n : Nat} (hn : n < 2 ^ 32)
    (h : ∀ k < 4, byteAt data (offset + k) = leByte n k) : leAt data offset 4 = n := by
  have h0 := congrArg UInt8.toNat (h 0 (by omega))
  have h1 := congrArg UInt8.toNat (h 1 (by omega))
  have h2 := congrArg UInt8.toNat (h 2 (by omega))
  have h3 := congrArg UInt8.toNat (h 3 (by omega))
  simp only [leByte, UInt8.toNat_ofNat', Nat.reducePow, Nat.add_zero, Nat.div_one] at h0 h1 h2 h3
  simp only [leAt, Nat.add_assoc, h0, h1, h2, h3]
  omega

theorem leAt_two {data : Sector} {offset n : Nat} (hn : n < 2 ^ 16)
    (h : ∀ k < 2, byteAt data (offset + k) = leByte n k) : leAt data offset 2 = n := by
  have h0 := congrArg UInt8.toNat (h 0 (by omega))
  have h1 := congrArg UInt8.toNat (h 1 (by omega))
  simp only [leByte, UInt8.toNat_ofNat', Nat.reducePow, Nat.add_zero, Nat.div_one] at h0 h1
  simp only [leAt, h0, h1]
  omega

/-- The bytes of one slot. -/
theorem recordByte_slot (store : ControllerStore) (i : Fin 5) {k : Nat} (hk : k < 33) :
    recordByte store (slotsOffset + slotSize * i + k) = (store.slots i).byte k := by
  have hi := i.isLt
  have hdiv : (slotsOffset + slotSize * i + k - slotsOffset) / slotSize = i := by
    simp only [slotsOffset, slotSize]
    omega
  have hmod : (slotsOffset + slotSize * i + k - slotsOffset) % slotSize = k := by
    simp only [slotsOffset, slotSize]
    omega
  unfold recordByte
  rw [if_neg (by simp only [slotsOffset]; omega), if_neg (by simp only [slotsOffset]; omega),
    if_neg (by simp only [slotsOffset]; omega), if_neg (by omega), dif_pos (by rw [hdiv]; exact hi),
    hmod]
  congr 2
  exact Fin.ext hdiv

theorem slotsAt_encode (store : ControllerStore) :
    slotsAt (controllerStoreEncode store) = store.slots := by
  funext i
  have hi := i.isLt
  have hbyte : ∀ k < 33, byteAt (controllerStoreEncode store) (slotsOffset + slotSize * i + k)
      = (store.slots i).byte k := by
    intro k hk
    rw [byteAt_encode_record store (by simp only [slotsOffset, slotSize, crcOffset]; omega)]
    exact recordByte_slot store i hk
  have hrole : byteAt (controllerStoreEncode store) (slotsOffset + slotSize * i)
      = (store.slots i).role := hbyte 0 (by omega)
  have hkey : Vector.ofFn (fun j : Fin 32 => byteAt (controllerStoreEncode store)
      (slotsOffset + slotSize * i + 1 + j)) = (store.slots i).publicKey := by
    ext j hj
    rw [Vector.getElem_ofFn, Nat.add_assoc, hbyte (1 + j) (by omega)]
    simp [ControllerSlot.byte, List.getD_eq_getElem?_getD, hj, Nat.add_comm 1 j]
  simp only [slotsAt, hrole, hkey]

theorem crcRegion_encode (store : ControllerStore) :
    crcRegion (controllerStoreEncode store)
      = (List.range crcOffset).map (recordByte store) :=
  List.map_congr_left fun _ hk => byteAt_encode_record store (List.mem_range.mp hk)

/-- The CRC and commit words above the record's body. -/
theorem byteAt_encode_crc (store : ControllerStore) {k : Nat} (hk : k < 4) :
    byteAt (controllerStoreEncode store) (crcOffset + k)
      = leByte (crc32 ((List.range crcOffset).map (recordByte store))).toNat k := by
  rw [byteAt_eq _ (by simp only [crcOffset]; omega)]
  unfold controllerStoreEncode
  rw [if_neg (by simp only [crcOffset]; omega),
    if_pos (by simp only [crcOffset, commitOffset]; omega)]
  show leByte _ (crcOffset + k - crcOffset) = _
  rw [Nat.add_sub_cancel_left]

theorem byteAt_encode_commit (store : ControllerStore) {k : Nat} (hk : k < 4) :
    byteAt (controllerStoreEncode store) (commitOffset + k)
      = leByte controllerStoreCommit k := by
  rw [byteAt_eq _ (by simp only [commitOffset]; omega)]
  unfold controllerStoreEncode
  rw [if_neg (by simp only [crcOffset, commitOffset]; omega),
    if_neg (by simp only [commitOffset]; omega),
    if_pos (by simp only [commitOffset, recordSize]; omega)]
  show leByte _ (commitOffset + k - commitOffset) = _
  rw [Nat.add_sub_cancel_left]

/-- A roster that passes the checks is read back from its encoding. -/
theorem recordValid_encode {store : ControllerStore} (h : rosterValid store.slots) :
    recordValid (some (controllerStoreEncode store)) = some store := by
  have hhead : ∀ k < 12, byteAt (controllerStoreEncode store) k = recordByte store k :=
    fun k hk => byteAt_encode_record store (by simp only [crcOffset]; omega)
  have hmagic : leAt (controllerStoreEncode store) 0 4 = controllerStoreMagic := by
    refine leAt_four (by decide) fun k hk => ?_
    rw [Nat.zero_add, hhead k (by omega)]
    exact if_pos hk
  have hschema : leAt (controllerStoreEncode store) 4 2 = controllerStoreSchema := by
    refine leAt_two (by decide) fun k hk => ?_
    rw [hhead (4 + k) (by omega), recordByte, if_neg (by omega), if_pos (by omega)]
    congr 1
    omega
  have hreserved : leAt (controllerStoreEncode store) 6 2 = 0 := by
    refine leAt_two (by decide) fun k hk => ?_
    rw [hhead (6 + k) (by omega), recordByte, if_neg (by omega), if_neg (by omega),
      if_pos (by omega)]
    simp [leByte]
  have hgeneration : leAt (controllerStoreEncode store) 8 4 = store.generation.toNat := by
    refine leAt_four store.generation.toNat_lt fun k hk => ?_
    rw [hhead (8 + k) (by omega), recordByte, if_neg (by omega), if_neg (by omega),
      if_neg (by omega), if_pos (by simp only [slotsOffset]; omega)]
    congr 1
    omega
  have hcrc : leAt (controllerStoreEncode store) crcOffset 4
      = (crc32 ((List.range crcOffset).map (recordByte store))).toNat :=
    leAt_four (UInt32.toNat_lt _) fun k hk => byteAt_encode_crc store hk
  have hcommit : leAt (controllerStoreEncode store) commitOffset 4 = controllerStoreCommit :=
    leAt_four (by decide) fun k hk => byteAt_encode_commit store hk
  have hroster : rosterValid (slotsAt (controllerStoreEncode store)) := by
    rwa [slotsAt_encode]
  simp only [recordValid, hmagic, hschema, hreserved, hcommit, hcrc, crcRegion_encode,
    UInt32.ofNat_toNat, ne_eq, not_true_eq_false, or_self, if_false, if_pos hroster]
  rw [hgeneration, UInt32.ofNat_toNat, slotsAt_encode]

/-- Without its four commit bytes a sector holds no record. -/
theorem recordValid_commit {data : Sector} {store : ControllerStore}
    (h : recordValid (some data) = some store) {k : Nat} (hk : k < 4) :
    byteAt data (commitOffset + k) = leByte controllerStoreCommit k := by
  have hcommit : leAt data commitOffset 4 = controllerStoreCommit := by
    by_contra hne
    simp [recordValid, hne] at h
  have h0 := (byteAt data commitOffset).toNat_lt
  have h1 := (byteAt data (commitOffset + 1)).toNat_lt
  have h2 := (byteAt data (commitOffset + 2)).toNat_lt
  have h3 := (byteAt data (commitOffset + 3)).toNat_lt
  simp only [leAt, Nat.add_assoc, Nat.reduceAdd, controllerStoreCommit] at hcommit
  rw [← UInt8.toNat_inj, leByte, UInt8.toNat_ofNat', controllerStoreCommit]
  rcases (by omega : k = 0 ∨ k = 1 ∨ k = 2 ∨ k = 3) with rfl | rfl | rfl | rfl
  · show (byteAt data commitOffset).toNat = _
    omega
  · omega
  · omega
  · omega

/-- A record that is read passes the roster checks. -/
theorem recordValid_roster {data : Option Sector} {store : ControllerStore}
    (h : recordValid data = some store) : rosterValid store.slots := by
  cases data with
  | none => cases h
  | some data =>
      simp only [recordValid] at h
      split at h
      · cases h
      · split at h
        next hroster =>
          cases h
          exact hroster
        next => cases h

end PicoBridge
