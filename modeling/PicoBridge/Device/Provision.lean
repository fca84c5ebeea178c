/-
SET_RADIO end to end: `build_set_radio_packet` on the host, and on the
device `ble_handle_set_radio` down to the flash.

# What is modelled how

Device/Dispatch.lean has the handler on the values it computes. Here it is
once more on the memory it reads, where a read out of bounds is `none`: the
bytes of the frame, the image that `radio_config_build2` fills, the two
`struct radio_config` and their comparison by `strncmp`. It is the same
handler (`bleHandleSetRadioMem_eq`).
-/
import PicoBridge.Device.Packets
import PicoBridge.Device.Effect
import PicoBridge.Radio.Codec

namespace PicoBridge

open Lib.NorFlash (run)

-- ================================================================ the host

def cmdSetRadio : UInt8 := 9

/-- `build_set_radio_packet`; none where it raises. -/
def buildSetRadioPacket (ssid psk : List UInt8) : Option (List UInt8) :=
  if ¬(1 ≤ ssid.length ∧ ssid.length ≤ 32) then none
  else if ¬(8 ≤ psk.length ∧ psk.length ≤ 63) then none
  else if [ssid, psk].any fun value => value.any fun byte => byte < 32 || byte > 126 then none
  else do
    let ssidLen ← appendByte ssid.length
    let pskLen ← appendByte psk.length
    some ([cmdSetRadio] ++ ssidLen ++ pskLen ++ ssid ++ psk)

-- ============================================================== the memory

/-- `strncmp(a, b, n) == 0`. -/
def strncmpEq : Nat → List UInt8 → List UInt8 → Option Bool
  | 0, _, _ => some true
  | n + 1, a :: as, b :: bs =>
      if a ≠ b then some false else if a = 0 then some true else strncmpEq n as bs
  | _ + 1, _, _ => none

/-- `radio_provision_flash_write_and_verify`, on the memory it reads. -/
def radioProvisionFlashWriteAndVerifyMem (radio : Sector) (image : Sector) (exec : FlashExec) :
    Option (Bool × Sector) := do
  let (valid, candidate) ← radioConfigParse2Checked (some (List.ofFn image)) radioSectorSize
  if ¬valid then some (false, radio)
  else
    let readback := run (radioProgramOps image) radio
    match exec with
    | .failed ran => some (false, if ran then readback else radio)
    | .ok =>
        if readback ≠ image then some (false, readback)
        else do
          let (valid, persisted) ←
            radioConfigParse2Checked (some (List.ofFn readback)) radioSectorSize
          if ¬valid then some (false, readback)
          else do
            let sameSsid ← strncmpEq 33 persisted.ssid candidate.ssid
            if ¬sameSsid then some (false, readback)
            else do
              let samePsk ← strncmpEq 64 persisted.psk candidate.psk
              some (samePsk, readback)

/-- `ble_handle_set_radio`, on the memory it reads; `image` is what its
static buffer holds before. -/
def bleHandleSetRadioMem (d : Device) (env : FrameEnv) (image : Sector) (p : List UInt8) :
    Option (BridgeStatus × Device) :=
  if p.length < 3 then some (.errArgument, d)
  else if ¬controllerStoreIsAdmin d.controllers d.noise.noiseAuthenticatedSlot then
    some (.errOwner, d)
  else if env.tudMounted then some (.errPolicy, d)
  else do
    let ssidLen ← p[1]?
    let pskLen ← p[2]?
    if p.length ≠ (3 + ssidLen.toNat + pskLen.toNat) % 65536 then some (.errArgument, d)
    else do
      let ssid ← readAt p 3 ssidLen.toNat
      let psk ← readAt p (3 + ssidLen.toNat) pskLen.toNat
      let (built, image) := radioConfigBuild2Into ssid psk image
      if ¬built then some (.errArgument, d)
      else do
        let (written, radio) ←
          radioProvisionFlashWriteAndVerifyMem d.radio image env.radioExec
        some (if written then .ok else .errState, { d with radio := radio })

-- ============================================================== the record

theorem radioLens_eq (ssid psk : List UInt8) :
    (plainConfig ssid psk).payload.flatten = radioLens ssid psk ++ ssid ++ psk := by
  have hzero : leBytes 2 0 = [0, 0] := rfl
  unfold RadioConfig.payload plainConfig radioLens
  simp only [List.flatten_cons, List.flatten_nil, List.length_nil, hzero, List.append_assoc,
    List.append_nil, List.cons_append, List.nil_append]

/-- The record, and the erased rest of the sector, are its pieces. -/
theorem radioRecord_pieces (ssid psk : List UInt8) :
    ((plainConfig ssid psk).pieces radioMagic2 2).flatten
      = radioRecord ssid psk ++ List.replicate (4096 - (plainConfig ssid psk).total) 0xff := by
  have htotal : (plainConfig ssid psk).total = 24 + ssid.length + psk.length := rfl
  have hschema : leBytes 2 2 = [2, 0] := rfl
  unfold RadioConfig.pieces radioRecord
  rw [List.flatten_append, List.flatten_append, radioLens_eq, htotal, hschema]
  simp only [List.flatten_cons, List.flatten_nil, List.append_assoc, List.append_nil]

theorem getElem_padded {l : List UInt8} {n k : Nat} {x : UInt8}
    (h : k < (l ++ List.replicate n x).length) : (l ++ List.replicate n x)[k] = l.getD k x := by
  by_cases hk : k < l.length
  · rw [List.getElem_append_left hk, List.getD_eq_getElem?_getD, List.getElem?_eq_getElem hk,
      Option.getD_some]
  · rw [List.getElem_append_right (by omega), List.getElem_replicate, List.getD_eq_getElem?_getD,
      List.getElem?_eq_none (by omega), Option.getD_none]

/-- The sector that `radio_config_build2` fills has the record. -/
theorem radioRecord_holds {ssid psk : List UInt8} (h : Admits 8 false (plainConfig ssid psk)) :
    HoldsRecord (fun i => (radioRecord ssid psk).getD i 0xff) radioMagic2 2
      (plainConfig ssid psk) := by
  have htotal : (plainConfig ssid psk).total ≤ 4096 := h.total_le.trans (by decide)
  refine (laid_pieces_iff rfl (by decide) (by omega)).mp ((Lib.Layout.laid_iff _ _ _).mpr ?_)
  rw [RadioConfig.pieces_length rfl htotal]
  refine List.ext_getElem ?_ fun k hk hk' => ?_
  · rw [Lib.Layout.slice_length, RadioConfig.pieces_length rfl htotal]
  · rw [Lib.Layout.slice_length] at hk
    simp only [radioRecord_pieces]
    rw [getElem_padded, Lib.Layout.getElem_slice, Nat.zero_add, byteAt_eq _ hk]

/-- The limits of `radio_config_build2`, and its record within them. -/
theorem radioConfigBuild2_eq (ssid psk : List UInt8) (out : Sector) :
    radioConfigBuild2 ssid psk
      = if (radioConfigBuild2Into ssid psk out).1 then some (radioConfigBuild2Into ssid psk out).2
        else none := by
  by_cases hadmits : Admits 8 false (plainConfig ssid psk)
  · have hinto := (radioConfigBuild2Into_iff ssid psk out).mpr ⟨hadmits, radioRecord_holds hadmits⟩
    obtain ⟨hssid, hpsk, hssid', hpsk'⟩ := (admits_plain_iff ssid psk).mp hadmits
    rw [hinto]
    unfold radioConfigBuild2
    rw [if_neg (by omega), if_neg (by omega), if_neg (by simp [hssid', hpsk'])]
    rfl
  · rw [radioConfigBuild2Into_refuses hadmits]
    rw [admits_plain_iff] at hadmits
    unfold radioConfigBuild2
    split
    · rfl
    split
    · rfl
    split
    · rfl
    next h1 h2 h3 =>
      exact absurd ⟨by omega, by omega, by simpa using h3⟩ hadmits

/-- It is read back. -/
theorem radioConfigBuild2_iff {ssid psk : List UInt8} {s : Sector} :
    radioConfigBuild2 ssid psk = some s ↔
      radioConfigParse2 (some s) radioSectorSize = some (plainConfig ssid psk) := by
  have hparse : radioConfigParse2 (some s) radioSectorSize = some (plainConfig ssid psk) ↔
      radioConfigBuild2Into ssid psk s = (true, s) :=
    parseCommon_iff.trans (radioConfigBuild2Into_iff ssid psk s).symm
  rw [radioConfigBuild2_eq ssid psk s, hparse]
  rcases radioConfigBuild2Into ssid psk s with ⟨built, image⟩
  cases built with
  | true => simp
  | false => simp

-- ========================================================== the one handler

theorem strncmpEq_self (bytes : List UInt8) : ∀ {n : Nat}, n ≤ bytes.length →
    strncmpEq n bytes bytes = some true := by
  induction bytes with
  | nil =>
      intro n hn
      rw [Nat.le_zero.mp hn]
      rfl
  | cons b bytes ih =>
      intro n hn
      cases n with
      | zero => rfl
      | succ n =>
          rw [strncmpEq, if_neg (not_not_intro rfl), ih (Nat.le_of_succ_le_succ hn), ite_self]

theorem cString_length (size : Nat) (bytes : List UInt8) : size ≤ (cString size bytes).length := by
  unfold cString
  rw [List.length_append, List.length_replicate]
  omega

/-- The writer, with its two structs and their comparison. -/
theorem radioProvisionFlashWriteAndVerifyMem_eq (radio image : Sector) (exec : FlashExec) :
    radioProvisionFlashWriteAndVerifyMem radio image exec
      = some (radioProvisionFlashWriteAndVerify radio image exec) := by
  have hchecked : radioConfigParse2Checked (some (List.ofFn image)) radioSectorSize
      = some (parsed (radioConfigParse2 (some image) radioSectorSize)) :=
    parseCommonChecked_eq image _ _ _ _
  unfold radioProvisionFlashWriteAndVerifyMem radioProvisionFlashWriteAndVerify
  rw [radioProgramOps_run, hchecked]
  cases hparse : radioConfigParse2 (some image) radioSectorSize with
  | none => rfl
  | some candidate =>
      cases exec with
      | failed ran => rfl
      | ok =>
          have hssid := strncmpEq_self (cString 33 candidate.ssid) (cString_length 33 _)
          have hpsk := strncmpEq_self (cString 64 candidate.psk) (cString_length 64 _)
          simp only [parsed, Option.isSome_some, Option.map_some, Option.getD_some,
            Option.bind_eq_bind, Option.bind_some, not_true_eq_false, if_false, ne_eq, hchecked,
            hparse, RadioConfig.out, hssid, hpsk, beq_self_eq_true, Bool.and_self]

/-- The handler, on the memory it reads. -/
theorem bleHandleSetRadioMem_eq (d : Device) (env : FrameEnv) (image : Sector) (p : List UInt8) :
    bleHandleSetRadioMem d env image p = some (bleHandleSetRadio d env p) := by
  unfold bleHandleSetRadioMem bleHandleSetRadio radioImage
  by_cases hshort : p.length < 3
  · rw [if_pos hshort, if_pos hshort]
  rw [if_neg hshort, if_neg hshort]
  split
  · rfl
  split
  · rfl
  have h1 : p[1]? = some (byteOf p 1) := by
    rw [List.getElem?_eq_getElem (by omega), byteOf, List.getD_eq_getElem?_getD,
      List.getElem?_eq_getElem (by omega), Option.getD_some]
  have h2 : p[2]? = some (byteOf p 2) := by
    rw [List.getElem?_eq_getElem (by omega), byteOf, List.getD_eq_getElem?_getD,
      List.getElem?_eq_getElem (by omega), Option.getD_some]
  have hsum := (byteOf p 1).toNat_lt
  have hsum' := (byteOf p 2).toNat_lt
  simp only [h1, h2, Option.bind_eq_bind, Option.bind_some]
  rw [Nat.mod_eq_of_lt (by omega)]
  by_cases hlength : p.length ≠ 3 + (byteOf p 1).toNat + (byteOf p 2).toNat
  · rw [if_pos hlength, if_pos hlength]
  rw [if_neg hlength, if_neg hlength]
  have hssid : readAt p 3 (byteOf p 1).toNat = some ((p.drop 3).take (byteOf p 1).toNat) :=
    if_pos (by omega)
  have hpsk : readAt p (3 + (byteOf p 1).toNat) (byteOf p 2).toNat
      = some ((p.drop (3 + (byteOf p 1).toNat)).take (byteOf p 2).toNat) := if_pos (by omega)
  rw [hssid, hpsk, Option.bind_some, Option.bind_some, radioConfigBuild2_eq _ _ image]
  rcases radioConfigBuild2Into _ _ image with ⟨built, filled⟩
  cases built with
  | false => rfl
  | true =>
      simp only [radioProvisionFlashWriteAndVerifyMem_eq, not_true_eq_false, if_false, if_true,
        Option.bind_some]

-- =============================================================== the frames

/-- The frame of a ssid and a psk. -/
def setRadioFrame (ssid psk : List UInt8) : List UInt8 :=
  [cmdSetRadio, UInt8.ofNat ssid.length, UInt8.ofNat psk.length] ++ ssid ++ psk

theorem any_unprintable (value : List UInt8) :
    (value.any fun byte => byte < 32 || byte > 126) = !value.all printable := by
  have hbyte : (fun byte : UInt8 => decide (byte < 32) || decide (byte > 126))
      = fun byte => !printable byte := by
    funext byte
    unfold printable
    rw [Bool.not_and, ← decide_not, ← decide_not]
    simp only [UInt8.not_le]
  rw [hbyte, List.not_all_eq_any_not]

/-- The host's limits are those of the record. -/
theorem buildSetRadioPacket_admits {ssid psk : List UInt8}
    (h : Admits 8 false (plainConfig ssid psk)) :
    buildSetRadioPacket ssid psk = some (setRadioFrame ssid psk) := by
  obtain ⟨hssid, hpsk, htext, htext'⟩ := (admits_plain_iff ssid psk).mp h
  unfold buildSetRadioPacket
  rw [if_neg (not_not_intro hssid), if_neg (not_not_intro hpsk), List.any_cons, List.any_cons,
    List.any_nil, any_unprintable, any_unprintable, htext, htext', if_neg (by decide), appendByte,
    appendByte, if_pos (by omega), if_pos (by omega)]
  rfl

theorem buildSetRadioPacket_refuses {ssid psk : List UInt8}
    (h : ¬Admits 8 false (plainConfig ssid psk)) : buildSetRadioPacket ssid psk = none := by
  rw [admits_plain_iff] at h
  unfold buildSetRadioPacket
  rw [List.any_cons, List.any_cons, List.any_nil, any_unprintable, any_unprintable]
  split
  · rfl
  split
  · rfl
  split
  · rfl
  next h1 h2 h3 =>
    refine absurd ⟨not_not.mp h1, not_not.mp h2, ?_⟩ h
    simpa using h3

theorem radioConfigBuild2_none_iff (ssid psk : List UInt8) :
    radioConfigBuild2 ssid psk = none ↔ ¬Admits 8 false (plainConfig ssid psk) := by
  constructor
  · intro hnone hadmits
    rw [radioConfigBuild2_eq ssid psk fun _ => 0xff, radioConfigBuild2Into_admits hadmits] at hnone
    cases hnone
  · intro h
    rw [radioConfigBuild2_eq ssid psk fun _ => 0xff, radioConfigBuild2Into_refuses h]
    rfl

/-- What the device reads of a frame, from an admin and unmounted. -/
theorem radioImage_frame {d : Device} {env : FrameEnv} {ssid psk : List UInt8}
    (hadmin : controllerStoreIsAdmin d.controllers d.noise.noiseAuthenticatedSlot = true)
    (hmounted : env.tudMounted = false) (hssid : ssid.length ≤ 255) (hpsk : psk.length ≤ 255) :
    (radioConfigBuild2 ssid psk = none →
      radioImage d env (setRadioFrame ssid psk) = .error .errArgument) ∧
    ∀ image, radioConfigBuild2 ssid psk = some image →
      radioImage d env (setRadioFrame ssid psk) = .ok image := by
  have hlen : (setRadioFrame ssid psk).length = 3 + ssid.length + psk.length := by
    unfold setRadioFrame
    rw [List.length_append, List.length_append]
    rfl
  have h1 : (byteOf (setRadioFrame ssid psk) 1).toNat = ssid.length :=
    Nat.mod_eq_of_lt (Nat.lt_succ_of_le hssid)
  have h2 : (byteOf (setRadioFrame ssid psk) 2).toNat = psk.length :=
    Nat.mod_eq_of_lt (Nat.lt_succ_of_le hpsk)
  have htext : (setRadioFrame ssid psk).drop 3 = ssid ++ psk := rfl
  unfold radioImage
  rw [if_neg (by omega), if_neg (not_not_intro hadmin), if_neg (by rw [hmounted]; decide)]
  dsimp only
  rw [h1, h2, if_neg (not_not_intro hlen), ← List.drop_drop, htext, List.take_left,
    List.drop_left, List.take_length]
  constructor
  · intro hbuilt
    rw [hbuilt]
  · intro image hbuilt
    rw [hbuilt]

/-- The answers before the write. -/
theorem radioImage_error {d : Device} {env : FrameEnv} {p : List UInt8} {st : BridgeStatus}
    (h : radioImage d env p = .error st) :
    st = .errArgument ∨ st = .errOwner ∨ st = .errPolicy := by
  unfold radioImage at h
  split at h
  · exact .inl (Except.error.inj h).symm
  split at h
  · exact .inr (.inl (Except.error.inj h).symm)
  split at h
  · exact .inr (.inr (Except.error.inj h).symm)
  dsimp only at h
  split at h
  · exact .inl (Except.error.inj h).symm
  split at h
  · exact .inl (Except.error.inj h).symm
  · cases h

/-- A frame that is written is that of a ssid and a psk. -/
theorem radioImage_ok {d : Device} {env : FrameEnv} {p : List UInt8} {image : Sector}
    (hcmd : byteOf p 0 = bleCmdSetRadio) (h : radioImage d env p = .ok image) :
    ∃ ssid psk, p = setRadioFrame ssid psk ∧ ssid.length = (byteOf p 1).toNat ∧
      psk.length = (byteOf p 2).toNat ∧ radioConfigBuild2 ssid psk = some image := by
  unfold radioImage at h
  split at h
  · cases h
  split at h
  · cases h
  split at h
  · cases h
  dsimp only at h
  split at h
  · cases h
  next hshort _ _ hlen =>
    rw [not_not] at hlen
    obtain ⟨c, a, b, rest, rfl⟩ : ∃ c a b rest, p = c :: a :: b :: rest := by
      match p, hshort with
      | c :: a :: b :: rest, _ => exact ⟨c, a, b, rest, rfl⟩
      | [], hshort => exact absurd (Nat.zero_lt_succ 2) hshort
      | [_], hshort => exact absurd (Nat.lt_succ_of_lt (Nat.lt_succ_self 1)) hshort
      | [_, _], hshort => exact absurd (Nat.lt_succ_self 2) hshort
    have ha : byteOf (c :: a :: b :: rest) 1 = a := rfl
    have hb : byteOf (c :: a :: b :: rest) 2 = b := rfl
    have hc : c = cmdSetRadio := hcmd
    rw [ha, hb] at h hlen
    have hrest : rest.length = a.toNat + b.toNat := by
      simp only [List.length_cons] at hlen
      omega
    have hsplit : rest.take a.toNat ++ (rest.drop a.toNat).take b.toNat = rest := by
      rw [List.take_of_length_le (l := rest.drop a.toNat) (by rw [List.length_drop]; omega),
        List.take_append_drop]
    have hssid : (rest.take a.toNat).length = a.toNat := by
      rw [List.length_take]
      omega
    have hpsk : ((rest.drop a.toNat).take b.toNat).length = b.toNat := by
      rw [List.length_take, List.length_drop]
      omega
    refine ⟨rest.take a.toNat, (rest.drop a.toNat).take b.toNat, ?_, hssid, hpsk, ?_⟩
    · unfold setRadioFrame
      rw [hssid, hpsk, UInt8.ofNat_toNat, UInt8.ofNat_toNat, List.append_assoc, hsplit, hc]
      rfl
    · rw [← List.drop_drop] at h
      cases hbuilt : radioConfigBuild2 (rest.take a.toNat) ((rest.drop a.toNat).take b.toNat) with
      | none =>
          have hnone := hbuilt ▸ h
          cases hnone
      | some built =>
          have hsome := hbuilt ▸ h
          exact congrArg some (Except.ok.inj hsome)

/-- A write that is verified. -/
theorem writeAndVerify_ok {radio image : Sector} {exec : FlashExec}
    (h : (radioProvisionFlashWriteAndVerify radio image exec).1 = true) :
    (radioProvisionFlashWriteAndVerify radio image exec).2 = image := by
  unfold radioProvisionFlashWriteAndVerify at h ⊢
  rw [radioProgramOps_run] at h ⊢
  cases hparse : radioConfigParse2 (some image) radioSectorSize with
  | none =>
      rw [hparse] at h
      cases h
  | some candidate =>
      cases exec with
      | failed ran =>
          rw [hparse] at h
          cases h
      | ok =>
          dsimp only
          rw [if_neg (not_not_intro rfl), hparse]

/-- A record is verified where the flash does not fail. -/
theorem writeAndVerify_verifies {radio image : Sector} {c : RadioConfig}
    (h : radioConfigParse2 (some image) radioSectorSize = some c) :
    (radioProvisionFlashWriteAndVerify radio image .ok).1 = true := by
  unfold radioProvisionFlashWriteAndVerify
  rw [radioProgramOps_run, h]
  dsimp only
  rw [if_neg (not_not_intro rfl), h]
  simp

/-- The answer where the write is reached. -/
theorem bleHandleSetRadio_ok {d : Device} {env : FrameEnv} {p : List UInt8} {image : Sector}
    (h : radioImage d env p = .ok image) :
    ((bleHandleSetRadio d env p).2.radio = image ∧ (bleHandleSetRadio d env p).1 = .ok) ∨
      ((radioProvisionFlashWriteAndVerify d.radio image env.radioExec).1 = false ∧
        (bleHandleSetRadio d env p).1 = .errState) := by
  unfold bleHandleSetRadio
  rw [h]
  dsimp only
  cases hwritten : (radioProvisionFlashWriteAndVerify d.radio image env.radioExec).1 with
  | true => exact .inl ⟨writeAndVerify_ok hwritten, rfl⟩
  | false => exact .inr ⟨rfl, rfl⟩

/-- And where it is not. -/
theorem bleHandleSetRadio_error {d : Device} {env : FrameEnv} {p : List UInt8}
    {st : BridgeStatus} (h : radioImage d env p = .error st) :
    bleHandleSetRadio d env p = (st, d) := by
  unfold bleHandleSetRadio
  rw [h]

-- =============================================================== end to end

/-- SET_RADIO end to end. The handler, on the memory it reads, reads
nothing else and is `bleHandleSetRadio`. From an admin, on an unmounted
device, it answers ARGUMENT to the frame of a ssid and a psk exactly where
`build_set_radio_packet` raises, which else makes that frame. With
ARGUMENT, OWNER or POLICY the sector is untouched; with OK the frame was
that of a ssid and a psk, and these two are what is read from the flash. -/
theorem set_radio_exact :
    (∀ d env image p, bleHandleSetRadioMem d env image p = some (bleHandleSetRadio d env p)) ∧
    (∀ (d : Device) (env : FrameEnv) (ssid psk : List UInt8),
      controllerStoreIsAdmin d.controllers d.noise.noiseAuthenticatedSlot = true →
      env.tudMounted = false → ssid.length ≤ 255 → psk.length ≤ 255 →
      (buildSetRadioPacket ssid psk = none ↔
        (bleHandleSetRadio d env (setRadioFrame ssid psk)).1 = .errArgument) ∧
      ∀ packet, buildSetRadioPacket ssid psk = some packet → packet = setRadioFrame ssid psk) ∧
    ∀ (d : Device) (env : FrameEnv) (p : List UInt8), byteOf p 0 = bleCmdSetRadio →
      let r := bleHandleSetRadio d env p
      (r.1 = .errArgument ∨ r.1 = .errOwner ∨ r.1 = .errPolicy → r.2.radio = d.radio) ∧
      (r.1 = .ok → ∃ ssid psk, p = setRadioFrame ssid psk ∧
        ssid.length = (byteOf p 1).toNat ∧ psk.length = (byteOf p 2).toNat ∧
        radioProvisionFlashRead r.2.radio = some ⟨ssid, psk, [], []⟩) := by
  refine ⟨bleHandleSetRadioMem_eq, ?_, ?_⟩
  · intro d env ssid psk hadmin hmounted hssid hpsk
    obtain ⟨hnone, hsome⟩ := radioImage_frame hadmin hmounted hssid hpsk
    by_cases hadmits : Admits 8 false (plainConfig ssid psk)
    · obtain ⟨image, hbuilt⟩ : ∃ image, radioConfigBuild2 ssid psk = some image :=
        Option.ne_none_iff_exists'.mp fun hnone =>
          (radioConfigBuild2_none_iff ssid psk).mp hnone hadmits
      rw [buildSetRadioPacket_admits hadmits]
      refine ⟨iff_of_false (by simp) ?_, fun packet h => (Option.some.inj h).symm⟩
      rcases bleHandleSetRadio_ok (hsome image hbuilt) with ⟨-, hst⟩ | ⟨-, hst⟩
      · rw [hst]
        decide
      · rw [hst]
        decide
    · rw [buildSetRadioPacket_refuses hadmits,
        bleHandleSetRadio_error (hnone ((radioConfigBuild2_none_iff ssid psk).mpr hadmits))]
      exact ⟨iff_of_true rfl rfl, fun packet h => (by cases h)⟩
  · intro d env p hcmd r
    cases himage : radioImage d env p with
    | error st =>
        have hr : r = (st, d) := bleHandleSetRadio_error himage
        rw [hr]
        refine ⟨fun _ => rfl, fun hok => ?_⟩
        dsimp only at hok
        rw [hok] at himage
        rcases radioImage_error himage with h | h | h <;> cases h
    | ok image =>
        obtain ⟨ssid, psk, hp, hssid, hpsk, hbuilt⟩ := radioImage_ok hcmd himage
        rcases bleHandleSetRadio_ok himage with ⟨hradio, hst⟩ | ⟨-, hst⟩
        · have hst : r.1 = .ok := hst
          have hradio : r.2.radio = image := hradio
          rw [hst, hradio]
          refine ⟨fun h => ?_, fun _ => ⟨ssid, psk, hp, ?_⟩⟩
          · rcases h with h | h | h <;> cases h
          · exact ⟨hssid, hpsk, radioConfigBuild2_iff.mp hbuilt⟩
        · have hst : r.1 = .errState := hst
          rw [hst]
          refine ⟨fun h => ?_, fun h => (by cases h)⟩
          rcases h with h | h | h <;> cases h

/-- The recovery admin's session, and no host mounted. -/
def radioBench : Device := { benchDevice with noise := { noiseIkCtxZero with ready := true } }

def radioEnv : FrameEnv := { envAt 0 with tudMounted := false }

theorem radioBench_admin : controllerStoreIsAdmin radioBench.controllers
    radioBench.noise.noiseAuthenticatedSlot = true := by decide +kernel

/-- On flash that does not fail, what is within the limits is stored. -/
theorem radioBench_ok {ssid psk : List UInt8} (hadmits : Admits 8 false (plainConfig ssid psk)) :
    (bleHandleSetRadio radioBench radioEnv (setRadioFrame ssid psk)).1 = .ok := by
  obtain ⟨hssid, hpsk, -⟩ := (admits_plain_iff ssid psk).mp hadmits
  obtain ⟨image, hbuilt⟩ : ∃ image, radioConfigBuild2 ssid psk = some image :=
    Option.ne_none_iff_exists'.mp fun hnone =>
      (radioConfigBuild2_none_iff ssid psk).mp hnone hadmits
  have himage := (@radioImage_frame radioBench radioEnv ssid psk radioBench_admin rfl (by omega)
    (by omega)).2 image hbuilt
  rcases bleHandleSetRadio_ok himage with ⟨-, hok⟩ | ⟨hfailed, -⟩
  · exact hok
  · have hexec : radioEnv.radioExec = .ok := rfl
    rw [hexec, writeAndVerify_verifies (radioConfigBuild2_iff.mp hbuilt)] at hfailed
    cases hfailed

/-- A psk of eight characters is stored and read, and one of seven is
refused. -/
theorem set_radio_exact_bench :
    let ssid : List UInt8 := [108, 97, 98]
    let psk : List UInt8 := List.replicate 8 112
    let r := bleHandleSetRadio radioBench radioEnv (setRadioFrame ssid psk)
    buildSetRadioPacket ssid psk = some (setRadioFrame ssid psk) ∧ r.1 = .ok ∧
      radioProvisionFlashRead r.2.radio = some ⟨ssid, psk, [], []⟩ ∧
      (bleHandleSetRadio radioBench radioEnv (setRadioFrame ssid (psk.drop 1))).1
        = .errArgument := by
  intro ssid psk r
  obtain ⟨-, hframe, hread⟩ := set_radio_exact
  have hok : r.1 = .ok := radioBench_ok ((admits_plain_iff _ _).mpr (by decide))
  obtain ⟨hraises, -⟩ := hframe radioBench radioEnv ssid (psk.drop 1) radioBench_admin rfl
    (by decide) (by decide)
  obtain ⟨ssid', psk', hp, hssid, hpsk, hconfig⟩ :=
    (hread radioBench radioEnv (setRadioFrame ssid psk) rfl).2 hok
  refine ⟨by decide +kernel, hok, ?_, hraises.mp (by decide +kernel)⟩
  have hbytes : ssid ++ psk = ssid' ++ psk' := congrArg (List.drop 3) hp
  obtain ⟨rfl, rfl⟩ := List.append_inj hbytes hssid.symm
  exact hconfig

end PicoBridge
