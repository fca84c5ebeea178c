/-
A single wrong byte in a record in flash: it is always detected.

The bitwise CRC-32 is a register that forgets nothing: a step is injective
in the state, because the polynomial has the top bit, and in the byte. So
no two regions that differ in one byte have one CRC. What the CRC does not
cover (its own word, the magic, the lengths, the commit word, the erased
tail) is compared with what the rest of the record determines.
-/
import PicoBridge.Lib.Checksum
import PicoBridge.Radio.Codec

namespace PicoBridge

open Lib (Register)
open Lib.Layout

-- ================================================================= the CRC

/-- The polynomial has the top bit, and a shifted state has not. -/
theorem shift_ne_xor (x y : UInt32) : x >>> 1 ≠ (y >>> 1) ^^^ 0xedb88320 := by
  intro h
  have hbit := congrArg (fun z : UInt32 => z.toBitVec.getLsbD 31) h
  simp at hbit

/-- A state is its low bit and the rest. -/
theorem shift_inj {x y : UInt32} (hlow : x &&& 1 = y &&& 1) (h : x >>> 1 = y >>> 1) : x = y := by
  have hlow' := congrArg UInt32.toNat hlow
  have h' := congrArg UInt32.toNat h
  rw [UInt32.toNat_and, UInt32.toNat_and, show (1 : UInt32).toNat = 1 from rfl,
    Nat.and_one_is_mod, Nat.and_one_is_mod] at hlow'
  rw [UInt32.toNat_shiftRight, UInt32.toNat_shiftRight, show (1 : UInt32).toNat % 32 = 1 from rfl,
    Nat.shiftRight_one, Nat.shiftRight_one] at h'
  exact UInt32.toNat_inj.mp (by omega)

theorem low_bit (x : UInt32) : x &&& 1 = 0 ∨ x &&& 1 = 1 := by
  have hlow : (x &&& 1).toNat = x.toNat % 2 := by
    rw [UInt32.toNat_and, show (1 : UInt32).toNat = 1 from rfl, Nat.and_one_is_mod]
  rcases Nat.mod_two_eq_zero_or_one x.toNat with h | h
  · exact .inl (UInt32.toNat_inj.mp (hlow.trans h))
  · exact .inr (UInt32.toNat_inj.mp (hlow.trans h))

theorem crcBit_even {x : UInt32} (h : x &&& 1 = 0) : crcBit x = x >>> 1 := by
  rw [crcBit, h]
  exact UInt32.xor_zero

theorem crcBit_odd {x : UInt32} (h : x &&& 1 = 1) : crcBit x = (x >>> 1) ^^^ 0xedb88320 := by
  rw [crcBit, h]
  rfl

theorem crcBit_injective : Function.Injective crcBit := by
  intro x y h
  rcases low_bit x with hx | hx <;> rcases low_bit y with hy | hy
  · rw [crcBit_even hx, crcBit_even hy] at h
    exact shift_inj (hx.trans hy.symm) h
  · rw [crcBit_even hx, crcBit_odd hy] at h
    exact absurd h (shift_ne_xor x y)
  · rw [crcBit_odd hx, crcBit_even hy] at h
    exact absurd h.symm (shift_ne_xor y x)
  · rw [crcBit_odd hx, crcBit_odd hy] at h
    exact shift_inj (hx.trans hy.symm) ((UInt32.xor_left_inj _).mp h)

/-- The loop of every CRC of the firmware. -/
def crcRegister : Register UInt32 UInt8 where
  step crc byte := crcBit^[8] (crc ^^^ byte.toUInt32)
  state_injective _ := fun _ _ h =>
    (UInt32.xor_left_inj _).mp (crcBit_injective.iterate 8 h)
  input_injective _ := fun _ _ h =>
    UInt8.toUInt32_inj.mp ((UInt32.xor_right_inj _).mp (crcBit_injective.iterate 8 h))

theorem crc32_run (data : List UInt8) : crc32 data = ~~~crcRegister.run 0xffffffff data := rfl

/-- A changed byte changes the CRC. -/
theorem crc32_set_ne {data : List UInt8} {i : Nat} {b : UInt8} (hi : i < data.length)
    (hne : data[i] ≠ b) : crc32 (data.set i b) ≠ crc32 data := by
  intro h
  rw [crc32_run, crc32_run] at h
  exact crcRegister.run_set_ne hi hne (UInt32.not_inj.mp h)

-- ======================================================== a changed sector

theorem getElem_bytesAt (s : Sector) (o : Nat) {n k : Nat} (h : k < (bytesAt s o n).length) :
    (bytesAt s o n)[k] = byteAt s (o + k) := getElem_slice (byteAt s) o h

/-- A sector with one byte changed. -/
structure Changed (s t : Sector) (i : Fin 4096) : Prop where
  here : t i ≠ s i
  elsewhere : ∀ j, j ≠ i → t j = s j

variable {s t : Sector} {i : Fin 4096}

/-- A window without the byte is as it was. -/
theorem Changed.bytesAt_eq (h : Changed s t i) {o n : Nat} (hfits : o + n ≤ 4096)
    (hout : i.val < o ∨ o + n ≤ i.val) : bytesAt t o n = bytesAt s o n := by
  refine slice_congr fun k hk => ?_
  rw [byteAt_eq t (by omega), byteAt_eq s (by omega)]
  refine h.elsewhere _ fun hi => ?_
  have := congrArg Fin.val hi
  dsimp only at this
  omega

/-- A window with it is another. -/
theorem Changed.bytesAt_ne (h : Changed s t i) {o n : Nat}
    (hin : o ≤ i.val ∧ i.val < o + n) : bytesAt t o n ≠ bytesAt s o n := by
  intro heq
  have hbyte := slice_inj heq (i - o) (by omega)
  rw [Nat.add_sub_cancel' hin.1, byteAt_eq t i.isLt, byteAt_eq s i.isLt] at hbyte
  exact h.here hbyte

/-- So is an integer. -/
theorem Changed.leAt_eq (h : Changed s t i) {o n : Nat} (hfits : o + n ≤ 4096)
    (hout : i.val < o ∨ o + n ≤ i.val) : leAt t o n = leAt s o n := by
  rw [PicoBridge.leAt_eq, PicoBridge.leAt_eq, h.bytesAt_eq hfits hout]

theorem Changed.leAt_ne (h : Changed s t i) {o n : Nat}
    (hin : o ≤ i.val ∧ i.val < o + n) : leAt t o n ≠ leAt s o n := by
  intro heq
  rw [PicoBridge.leAt_eq, PicoBridge.leAt_eq] at heq
  have hbytes := congrArg (leBytes n) heq
  have ht := leBytes_leValue (bytesAt t o n)
  have hs := leBytes_leValue (bytesAt s o n)
  rw [bytesAt_length] at ht hs
  rw [ht, hs] at hbytes
  exact h.bytesAt_ne hin hbytes

/-- A region with it has another CRC. -/
theorem Changed.crc32_ne (h : Changed s t i) {o n : Nat} (hfits : o + n ≤ 4096)
    (hin : o ≤ i.val ∧ i.val < o + n) : crc32 (bytesAt t o n) ≠ crc32 (bytesAt s o n) := by
  have hset : bytesAt t o n = (bytesAt s o n).set (i - o) (t i) := by
    refine List.ext_getElem (by rw [List.length_set, bytesAt_length, bytesAt_length])
      fun k hk hk' => ?_
    rw [bytesAt_length] at hk
    rw [getElem_bytesAt, List.getElem_set]
    split
    next hi =>
      rw [← byteAt_eq t i.isLt]
      congr 1
      omega
    next hi =>
      rw [getElem_bytesAt, byteAt_eq t (by omega), byteAt_eq s (by omega)]
      refine h.elsewhere _ fun heq => hi ?_
      have := congrArg Fin.val heq
      dsimp only at this
      omega
  rw [hset]
  refine crc32_set_ne (by rw [bytesAt_length]; omega) ?_
  rw [getElem_bytesAt, Nat.add_sub_cancel' hin.1, byteAt_eq s i.isLt]
  exact h.here.symm

/-- One that is read is not read any more with a byte of it changed. -/
theorem Changed.update {s : Sector} {i : Fin 4096} {v : UInt8} (h : v ≠ s i) :
    Changed s (Function.update s i v) i where
  here := by rwa [Function.update_self]
  elsewhere _ hj := Function.update_of_ne hj v s

-- ============================================================= the records

theorem crcRegion_eq (s : Sector) : crcRegion s = bytesAt s 0 crcOffset := by
  refine List.map_congr_left fun k _ => ?_
  rw [Nat.zero_add]

/-- A sector whose roster record is wrong in its CRC or its commit word. -/
theorem recordValid_none {s : Sector}
    (h : UInt32.ofNat (leAt s crcOffset 4) ≠ crc32 (crcRegion s) ∨
      leAt s commitOffset 4 ≠ controllerStoreCommit) : recordValid (some s) = none := by
  unfold recordValid
  dsimp only
  refine if_pos ?_
  rcases h with h | h
  · exact .inr (.inr (.inr (.inr h)))
  · exact .inr (.inr (.inr (.inl h)))

/-- A roster's record, with a byte of it changed. -/
theorem encode_changed {store : ControllerStore}
    (h : Changed (controllerStoreEncode store) t i) (hi : i.val < recordSize) :
    recordValid (some t) = none := by
  have hcrc : leAt (controllerStoreEncode store) crcOffset 4
      = (crc32 (crcRegion (controllerStoreEncode store))).toNat := by
    rw [crcRegion_encode]
    exact leAt_four (UInt32.toNat_lt _) fun k hk => byteAt_encode_crc store hk
  have hcommit : leAt (controllerStoreEncode store) commitOffset 4 = controllerStoreCommit :=
    leAt_four (by decide) fun k hk => byteAt_encode_commit store hk
  generalize controllerStoreEncode store = s at h hcrc hcommit
  rw [crcRegion_eq] at hcrc
  unfold recordSize at hi
  rcases (by omega : i.val < 180 ∨ 180 ≤ i.val ∧ i.val < 184 ∨ 184 ≤ i.val) with
    hregion | hword | hend
  · refine recordValid_none (.inl ?_)
    have hword : leAt t crcOffset 4 = leAt s crcOffset 4 := h.leAt_eq (by decide) (.inl hregion)
    rw [crcRegion_eq, hword, hcrc, UInt32.ofNat_toNat]
    exact (h.crc32_ne (by decide) ⟨Nat.zero_le _, hregion⟩).symm
  · refine recordValid_none (.inl fun heq => ?_)
    have hbytes : bytesAt t 0 crcOffset = bytesAt s 0 crcOffset :=
      h.bytesAt_eq (by decide) (.inr hword.1)
    rw [crcRegion_eq, hbytes] at heq
    have ht := (crcAt_iff t crcOffset _).mp heq.symm
    have hs := (leAt_eq_iff s crcOffset (UInt32.toNat_lt _)).mp hcrc
    exact h.bytesAt_ne ⟨hword.1, hword.2⟩ (ht.trans hs.symm)
  · refine recordValid_none (.inr fun heq => ?_)
    exact h.leAt_ne ⟨hend, hi⟩ (heq.trans hcommit.symm)

/-- A radio record, with a byte of its sector changed. -/
theorem parseCommon_changed {magic : List UInt8} {schema pskMin : Nat} {certsMandatory : Bool}
    {c : RadioConfig}
    (hs : parseCommon (some s) radioSectorSize magic schema pskMin certsMandatory = some c)
    (h : Changed s t i) :
    parseCommon (some t) radioSectorSize magic schema pskMin certsMandatory = none := by
  cases ht : parseCommon (some t) radioSectorSize magic schema pskMin certsMandatory with
  | none => rfl
  | some c' =>
      exfalso
      obtain ⟨hadm, hs⟩ := parseCommon_iff.mp hs
      obtain ⟨hadm', ht⟩ := parseCommon_iff.mp ht
      have hle := hadm.total_le
      have hle' := hadm'.total_le
      have hi := i.isLt
      have hlow := c.sixteen_le
      -- the lengths of the two records, as they are read
      have hsum : c.total = 24 + leAt s 16 2 + leAt s 18 2 + leAt s 20 2 + leAt s 22 2 := by
        rw [hs.ssidLen, hs.pskLen, hs.certLen, hs.keyLen]
        rfl
      have hsum' : c'.total = 24 + leAt t 16 2 + leAt t 18 2 + leAt t 20 2 + leAt t 22 2 := by
        rw [ht.ssidLen, ht.pskLen, ht.certLen, ht.keyLen]
        rfl
      rcases (by omega : i.val < 8 ∨ 8 ≤ i.val ∧ i.val < 10 ∨ 16 ≤ i.val ∧ i.val < 24 ∨
        (10 ≤ i.val ∧ i.val < 16 ∨ 24 ≤ i.val)) with hmagic | hschema | hlens | hrest
      · exact h.bytesAt_ne ⟨Nat.zero_le _, hmagic⟩ (ht.magic.trans hs.magic.symm)
      · exact h.leAt_ne hschema (ht.schema.trans hs.schema.symm)
      · -- one of the lengths is another, and the total is as it was
        have hother : ∀ o, i.val < o ∨ o + 2 ≤ i.val → o + 2 ≤ 4096 → leAt t o 2 = leAt s o 2 :=
          fun o hout hfits => h.leAt_eq hfits hout
        have htotal : c'.total = c.total := by
          rw [← ht.total, ← hs.total, hother 10 (by omega) (by omega)]
        rcases (by omega : i.val < 18 ∨ 18 ≤ i.val ∧ i.val < 20 ∨ 20 ≤ i.val ∧ i.val < 22 ∨
          22 ≤ i.val) with hssid | hpsk | hcert | hkey
        · refine h.leAt_ne (o := 16) (n := 2) ⟨hlens.1, hssid⟩ ?_
          have h18 := hother 18 (by omega) (by omega)
          have h20 := hother 20 (by omega) (by omega)
          have h22 := hother 22 (by omega) (by omega)
          omega
        · refine h.leAt_ne (o := 18) (n := 2) hpsk ?_
          have h16 := hother 16 (by omega) (by omega)
          have h20 := hother 20 (by omega) (by omega)
          have h22 := hother 22 (by omega) (by omega)
          omega
        · refine h.leAt_ne (o := 20) (n := 2) hcert ?_
          have h16 := hother 16 (by omega) (by omega)
          have h18 := hother 18 (by omega) (by omega)
          have h22 := hother 22 (by omega) (by omega)
          omega
        · refine h.leAt_ne (o := 22) (n := 2) ⟨hkey, hlens.2⟩ ?_
          have h16 := hother 16 (by omega) (by omega)
          have h18 := hother 18 (by omega) (by omega)
          have h20 := hother 20 (by omega) (by omega)
          omega
      · have hlens : ∀ o, 16 ≤ o → o + 2 ≤ 24 → leAt t o 2 = leAt s o 2 :=
          fun o ho ho' => h.leAt_eq (by omega) (by omega)
        have htotal : c'.total = c.total := by
          rw [hsum, hsum', hlens 16 (by omega) (by omega), hlens 18 (by omega) (by omega),
            hlens 20 (by omega) (by omega), hlens 22 (by omega) (by omega)]
        have hcrc := hs.crc
        have hcrc' := ht.crc
        rw [← hs.payload (by omega)] at hcrc
        rw [← ht.payload (by omega), htotal] at hcrc'
        rcases (by omega : 10 ≤ i.val ∧ i.val < 12 ∨ 12 ≤ i.val ∧ i.val < 16 ∨
          24 ≤ i.val ∧ i.val < c.total ∨ c.total ≤ i.val ∧ i.val < 4096) with
          hlength | hword | htext | hpad
        · exact h.leAt_ne hlength (ht.total.trans (htotal.trans hs.total.symm))
        · rw [h.bytesAt_eq (by omega) (by omega)] at hcrc'
          have hbytes := (crcAt_iff s 12 _).mp hcrc
          have hbytes' := (crcAt_iff t 12 _).mp hcrc'
          exact h.bytesAt_ne hword (hbytes'.trans hbytes.symm)
        · rw [h.leAt_eq (by omega) (by omega), ← hcrc] at hcrc'
          exact h.crc32_ne (by omega) (by omega) hcrc'
        · have herased := ht.erased
          rw [htotal, ← hs.erased] at herased
          exact h.bytesAt_ne (by omega) herased

/-- Records in flash detect a changed byte: any byte of the 188 of any
roster's record, wherever the other sector has none to boot; and any byte
of a sector that either radio parser accepts. -/
theorem changed_byte_detected :
    (∀ (store : ControllerStore) (i : Fin 4096) (v : UInt8), i.val < recordSize →
      v ≠ controllerStoreEncode store i → ∀ other, recordValid other = none →
      let changed := some (Function.update (controllerStoreEncode store) i v)
      controllerStoreBoot changed other = .error .format ∧
        controllerStoreBoot other changed = .error .format) ∧
    ∀ (s : Sector) (i : Fin 4096) (v : UInt8), v ≠ s i →
      ((radioConfigParse (some s) radioSectorSize).isSome →
        radioConfigParse (some (Function.update s i v)) radioSectorSize = none) ∧
      ((radioConfigParse2 (some s) radioSectorSize).isSome →
        radioConfigParse2 (some (Function.update s i v)) radioSectorSize = none) := by
  constructor
  · intro store i v hi hv other hother changed
    have hnone : recordValid changed = none := encode_changed (.update hv) hi
    unfold controllerStoreBoot
    rw [hnone, hother]
    exact ⟨rfl, rfl⟩
  · intro s i v hv
    constructor
    · intro h
      obtain ⟨c, hc⟩ := Option.isSome_iff_exists.mp h
      exact parseCommon_changed hc (.update hv)
    · intro h
      obtain ⟨c, hc⟩ := Option.isSome_iff_exists.mp h
      exact parseCommon_changed hc (.update hv)

/-- 4096 bytes are a sector's. -/
theorem sector_of_bytes {bytes : List UInt8} (h : bytes.length = 4096) :
    ∃ s : Sector, List.ofFn s = bytes := by
  refine ⟨fun i => bytes.get (i.cast h.symm), ?_⟩
  rw [← List.ofFn_congr h bytes.get]
  exact List.ofFn_get bytes

/-- Within the limits there is a sector that is accepted. -/
theorem parseCommon_some {magic : List UInt8} {schema pskMin : Nat} {certsMandatory : Bool}
    {c : RadioConfig} (hmagic : magic.length = 8) (hschema : schema < 256 ^ 2)
    (hadmits : Admits pskMin certsMandatory c) :
    ∃ s, parseCommon (some s) radioSectorSize magic schema pskMin certsMandatory = some c := by
  have htotal := hadmits.total_le
  have hlength : (c.pieces magic schema).flatten.length = 4096 :=
    c.pieces_length hmagic (by omega)
  obtain ⟨s, hs⟩ := sector_of_bytes hlength
  refine ⟨s, parseCommon_iff.mpr ⟨hadmits, (laid_pieces_iff hmagic hschema (by omega)).mp ?_⟩⟩
  rw [laid_iff, hlength, ← bytesAt_eq, ← ofFn_eq]
  exact hs

theorem byte_succ_ne (v : UInt8) : v + 1 ≠ v := by
  intro h
  have heq := congrArg UInt8.toNat h
  have hlt := v.toNat_lt
  rw [UInt8.toNat_add] at heq
  have hone : (1 : UInt8).toNat = 1 := rfl
  omega

/-- A changed magic byte of a roster's record, a changed credential byte
of the one layout and a changed last byte of the other. -/
theorem changed_byte_detected_bench :
    let changed := some (Function.update (controllerStoreEncode (seededStore (tagKey 1))) 0 0)
    (controllerStoreBoot changed none = .error .format ∧
        controllerStoreBoot none changed = .error .format) ∧
      (∃ s, (radioConfigParse (some s) radioSectorSize).isSome ∧
        radioConfigParse (some (Function.update s 24 (s 24 + 1))) radioSectorSize = none) ∧
      ∃ s, (radioConfigParse2 (some s) radioSectorSize).isSome ∧
        radioConfigParse2 (some (Function.update s 4095 (s 4095 + 1))) radioSectorSize = none := by
  obtain ⟨hroster, hradio⟩ := changed_byte_detected
  refine ⟨hroster (seededStore (tagKey 1)) 0 0 (by decide) (by decide +kernel) none rfl, ?_, ?_⟩
  · have hadmits : Admits 20 true ⟨[108, 97, 98], List.replicate 20 112, [1, 2], [3]⟩ :=
      ⟨by decide, by decide, by decide, by decide, by decide⟩
    obtain ⟨s, hs⟩ := @parseCommon_some radioMagic1 1 _ _ _ rfl (by decide) hadmits
    have hsome : (radioConfigParse (some s) radioSectorSize).isSome :=
      Option.isSome_of_mem hs
    exact ⟨s, hsome, (hradio s 24 _ (byte_succ_ne _)).1 hsome⟩
  · have hadmits : Admits 8 false ⟨[108, 97, 98], List.replicate 8 112, [], []⟩ :=
      ⟨by decide, by decide, by decide, by decide, by decide⟩
    obtain ⟨s, hs⟩ := @parseCommon_some radioMagic2 2 _ _ _ rfl (by decide) hadmits
    have hsome : (radioConfigParse2 (some s) radioSectorSize).isSome :=
      Option.isSome_of_mem hs
    exact ⟨s, hsome, (hradio s 4095 _ (byte_succ_ne _)).2 hsome⟩

end PicoBridge
