/-
The radio record over the life of a device: whose credentials the radio
sector holds after any run of commands, failed writes, reboots and power
cuts.

# The history

A run leaves a history of writes (`radioMachine`): what each admin's
SET_RADIO or CLEAR_RADIO on an unmounted device asked for, and whether it
returned OK. The sector is then a register with that history
(`Lib.Register`): `radio_step` is its one step, `radio_refines` its runs.

# Cuts

`radio_program_sector` holds nothing back, but a record without
certificates ends on the first page and the other fifteen are programmed
with 0xff. So all that a cut can leave, outside a torn operation, is the
old sector, an erased one or the new one (`cutImage_reads`). Inside a torn
erase or a torn first page the record has only its CRC-32, and that no
other record comes of it is an assumption (`RecordTears`).
-/
import PicoBridge.Device.Provision
import PicoBridge.Device.Roles
import PicoBridge.Lib.Register

namespace PicoBridge

open Lib (Machine Trace)
open Lib.NorFlash (Op run cutImage cutImage_keeps cutImage_all)
open Lib.Register (Write)

-- ============================================================ the requests

/-- The ssid and the psk of a SET_RADIO frame. -/
def frameSsid (p : List UInt8) : List UInt8 := (p.drop 3).take (byteOf p 1).toNat

def framePsk (p : List UInt8) : List UInt8 :=
  (p.drop (3 + (byteOf p 1).toNat)).take (byteOf p 2).toNat

/-- What a command that reaches the radio sector asks to be read there. -/
def radioAsked (d : Device) (env : FrameEnv) (p : List UInt8) : Option (Option RadioConfig) :=
  if byteOf p 0 = bleCmdSetRadio then
    match radioImage d env p with
    | .error _ => none
    | .ok _ => some (some (plainConfig (frameSsid p) (framePsk p)))
  else if byteOf p 0 = bleCmdClearRadio ∧
      controllerStoreIsAdmin d.controllers d.noise.noiseAuthenticatedSlot ∧ ¬env.tudMounted then
    some none
  else none

/-- Whether the command returns OK. -/
def radioDone (d : Device) (env : FrameEnv) (p : List UInt8) : Bool :=
  (bridgeCommand d env p).any fun r => r.1 == .ok

variable (lib : Crypto) (keys : HeaderKeys)

/-- The write of a happening, if it is one. -/
def radioWrite (w : Power) : Happening → Option (Write (Option RadioConfig))
  | .frame env data =>
      match w with
      | .off _ _ => none
      | .on d => (framePlaintext lib d.noise data).bind fun p =>
          (radioAsked d env p).map fun asked => ⟨asked, radioDone d env p⟩
  | .frameCut env data _ =>
      match w with
      | .off _ _ => none
      | .on d => (framePlaintext lib d.noise data).bind fun p =>
          (radioAsked d env p).map fun asked => ⟨asked, false⟩
  | _ => none

/-- A life, with the history of its writes. -/
def radioMachine : Machine Power Happening (Write (Option RadioConfig)) where
  step w i := (powerStep lib keys w i, (radioWrite lib w i).toList)

/-- What a torn operation leaves of the record: nothing that is read, the
old record or the one that is meant. -/
def RecordTears (radio : Sector) (ops : List (Op (Fin 4096))) (cut : PowerCut) : Prop :=
  cut.done ≤ 1 → ∀ residue, cut.torn = some residue →
    let left := radioProvisionFlashRead (cutImage ops cut.done cut.torn radio)
    left = none ∨ left = radioProvisionFlashRead radio ∨
      left = radioProvisionFlashRead (run ops radio)

/-- A cut tears the radio sector only as flash does. -/
def RadioTears (w : Power) : Happening → Prop
  | .frameCut env data cut => ∀ d p, w = .on d → framePlaintext lib d.noise data = some p →
      RecordTears d.radio (radioOps d env p) cut
  | _ => True

variable {lib keys} {d : Device} {env : FrameEnv} {p : List UInt8}

-- ============================================================= the sectors

/-- An erased sector holds no record. -/
theorem read_erased : radioProvisionFlashRead (fun _ => 0xff) = none := by
  have hmagic : bytesAt (fun _ => 0xff) 0 8 ≠ radioMagic2 := by decide
  unfold radioProvisionFlashRead radioConfigParse2 parseCommon
  dsimp only
  rw [if_neg (not_not_intro rfl), if_pos (.inl hmagic)]

/-- A record without certificates ends on the first page. -/
theorem built_erased {ssid psk : List UInt8} {image : Sector}
    (h : radioConfigBuild2 ssid psk = some image) {i : Fin 4096}
    (hi : pageRegion 0 i = false) : image i = 0xff := by
  have hpage : ¬i.val / 256 = 0 := by
    rw [← pageRegion_iff, hi]
    decide
  have hlen : (radioRecord ssid psk).length = 24 + ssid.length + psk.length := by
    unfold radioRecord radioLens
    simp only [List.length_append, leBytes_length, List.length_cons, List.length_nil, radioMagic2]
  unfold radioConfigBuild2 at h
  split at h
  · cases h
  split at h
  · cases h
  split at h
  · cases h
  next hssid hpsk _ =>
    cases h
    dsimp only
    rw [List.getD_eq_getElem?_getD, List.getElem?_eq_none (by omega), Option.getD_none]

/-- So after its first page the record is there. -/
theorem first_page {ssid psk : List UInt8} {image : Sector}
    (h : radioConfigBuild2 ssid psk = some image) :
    (Op.program (pageRegion 0) image).run (fun _ => 0xff) = image := by
  funext i
  simp only [Op.run]
  cases hi : pageRegion 0 i with
  | true => rw [if_pos rfl, Lib.NorFlash.ones_and]
  | false => rw [if_neg Bool.false_ne_true, built_erased h hi]

/-- Whatever is cut after the first page leaves the record. -/
theorem cutImage_pages {ssid psk : List UInt8} {image : Sector}
    (h : radioConfigBuild2 ssid psk = some image) (n : Nat) (w : Option Sector) (radio : Sector) :
    cutImage (radioProgramOps image) (n + 2) w radio = image := by
  have hops : radioProgramOps image = .erase :: .program (pageRegion 0) image ::
      ((List.range 15).map Nat.succ).map fun page => .program (pageRegion page) image := by
    unfold radioProgramOps
    rw [List.range_succ_eq_map, List.map_cons]
  rw [hops]
  show cutImage (((List.range 15).map Nat.succ).map fun page => .program (pageRegion page) image)
    n w ((Op.program (pageRegion 0) image).run fun _ => 0xff) = image
  funext i
  refine cutImage_keeps (fun op hop => ?_) n w (by rw [first_page h])
  obtain ⟨page, -, rfl⟩ := List.mem_map.mp hop
  exact ⟨_, _, rfl, fun _ => rfl⟩

/-- What a cut SET_RADIO leaves to be read. -/
theorem cutImage_reads {ssid psk : List UInt8} {image radio : Sector}
    (h : radioConfigBuild2 ssid psk = some image) {cut : PowerCut}
    (htears : RecordTears radio (radioProgramOps image) cut) :
    let left := radioProvisionFlashRead (cutImage (radioProgramOps image) cut.done cut.torn radio)
    left = none ∨ left = radioProvisionFlashRead radio ∨ left = some (plainConfig ssid psk) := by
  have hread : radioProvisionFlashRead (run (radioProgramOps image) radio)
      = some (plainConfig ssid psk) := by
    rw [radioProgramOps_run]
    exact radioConfigBuild2_iff.mp h
  rcases cut with ⟨done, torn⟩
  unfold RecordTears at htears
  rw [hread] at htears
  dsimp only at htears ⊢
  rcases done with _ | _ | n
  · cases torn with
    | none => exact .inr (.inl rfl)
    | some residue => exact htears (by decide) residue rfl
  · cases torn with
    | none => exact .inl read_erased
    | some residue => exact htears (by decide) residue rfl
  · rw [cutImage_pages h]
    exact .inr (.inr (radioConfigBuild2_iff.mp h))

/-- The same of a cut CLEAR_RADIO. -/
theorem cutErase_reads {radio : Sector} {cut : PowerCut} (htears : RecordTears radio [.erase] cut) :
    let left := radioProvisionFlashRead (cutImage [.erase] cut.done cut.torn radio)
    left = none ∨ left = radioProvisionFlashRead radio := by
  rcases cut with ⟨done, torn⟩
  dsimp only
  cases done with
  | zero =>
      cases torn with
      | none => exact .inr rfl
      | some residue =>
          rcases htears (Nat.zero_le 1) residue rfl with hnone | hold | hmeant
          · exact .inl hnone
          · exact .inr hold
          · exact .inl (hmeant.trans read_erased)
  | succ n =>
      rw [cutImage_all (by rw [List.length_singleton]; omega)]
      exact .inl read_erased

-- ============================================================ the requests

/-- A request is one of the two commands, past its checks. -/
theorem radioAsked_cases (d : Device) (env : FrameEnv) (p : List UInt8) :
    radioAsked d env p = none ∨
      (∃ image, byteOf p 0 = bleCmdSetRadio ∧ radioImage d env p = .ok image ∧
        radioConfigBuild2 (frameSsid p) (framePsk p) = some image ∧
        radioAsked d env p = some (some (plainConfig (frameSsid p) (framePsk p)))) ∨
      (byteOf p 0 = bleCmdClearRadio ∧
        controllerStoreIsAdmin d.controllers d.noise.noiseAuthenticatedSlot = true ∧
        ¬env.tudMounted ∧ radioAsked d env p = some none) := by
  unfold radioAsked
  by_cases hset : byteOf p 0 = bleCmdSetRadio
  · rw [if_pos hset]
    cases himage : radioImage d env p with
    | error st => exact .inl rfl
    | ok image =>
        refine .inr (.inl ⟨image, hset, rfl, ?_, rfl⟩)
        unfold radioImage at himage
        split at himage
        · cases himage
        split at himage
        · cases himage
        split at himage
        · cases himage
        dsimp only at himage
        split at himage
        · cases himage
        split at himage
        · cases himage
        next built hbuilt =>
          cases himage
          exact hbuilt
  · rw [if_neg hset]
    by_cases hclear : byteOf p 0 = bleCmdClearRadio ∧
        controllerStoreIsAdmin d.controllers d.noise.noiseAuthenticatedSlot ∧ ¬env.tudMounted
    · rw [if_pos hclear]
      exact .inr (.inr ⟨hclear.1, hclear.2.1, hclear.2.2, rfl⟩)
    · rw [if_neg hclear]
      exact .inl rfl

theorem bridgeCommand_setRadio (hcmd : byteOf p 0 = bleCmdSetRadio) :
    bridgeCommand d env p = some (bleHandleSetRadio d env p) := by
  unfold bridgeCommand
  rw [hcmd]
  rfl

theorem bridgeCommand_clearRadio (hcmd : byteOf p 0 = bleCmdClearRadio) :
    bridgeCommand d env p = some (bleHandleClearRadio d env) := by
  unfold bridgeCommand
  rw [hcmd]
  rfl

/-- The sector after a command that answers with a bridge status. -/
theorem authenticated_radio {r : BridgeStatus × Device} (hcmd : byteOf p 0 ≠ 0)
    (h : bridgeCommand d env p = some r) :
    (bleHandleAuthenticatedCommand d env p).2.radio = r.2.radio := by
  have hlen : ¬p.length = 0 := by
    intro hlen
    obtain rfl := List.length_eq_zero_iff.mp hlen
    exact hcmd rfl
  unfold bleHandleAuthenticatedCommand
  rw [if_neg hlen, h]

/-- A failed write leaves the old sector or the new one. -/
theorem write_leaves (radio image : Sector) (exec : FlashExec) :
    (radioProvisionFlashWriteAndVerify radio image exec).2 = radio ∨
      (radioProvisionFlashWriteAndVerify radio image exec).2 = image := by
  unfold radioProvisionFlashWriteAndVerify
  rw [radioProgramOps_run]
  cases radioConfigParse2 (some image) radioSectorSize with
  | none => exact .inl rfl
  | some candidate =>
      rcases exec with _ | ran
      · dsimp only
        rw [if_neg (not_not_intro rfl)]
        cases radioConfigParse2 (some image) radioSectorSize <;> exact .inr rfl
      · cases ran
        · exact .inl rfl
        · exact .inr rfl

/-- A failed erase leaves the old sector or an erased one. -/
theorem clear_leaves (radio : Sector) (exec : FlashExec) :
    (radioProvisionFlashClear radio exec).2 = (fun _ => 0xff) ∨
      (radioProvisionFlashClear radio exec).1 = false ∧
        (radioProvisionFlashClear radio exec).2 = radio := by
  rcases exec with _ | ran
  · exact .inl rfl
  · cases ran with
    | true => exact .inl rfl
    | false => exact .inr ⟨rfl, rfl⟩

/-- Whether SET_RADIO, past its checks, returns OK. -/
theorem radioDone_set {image : Sector} (hcmd : byteOf p 0 = bleCmdSetRadio)
    (himage : radioImage d env p = .ok image) :
    radioDone d env p = (radioProvisionFlashWriteAndVerify d.radio image env.radioExec).1 := by
  unfold radioDone
  rw [bridgeCommand_setRadio hcmd, Option.any_some]
  unfold bleHandleSetRadio
  rw [himage]
  dsimp only
  cases (radioProvisionFlashWriteAndVerify d.radio image env.radioExec).1 <;> rfl

theorem radioDone_clear (hcmd : byteOf p 0 = bleCmdClearRadio)
    (hadmin : controllerStoreIsAdmin d.controllers d.noise.noiseAuthenticatedSlot = true)
    (hmounted : ¬env.tudMounted) :
    radioDone d env p = (radioProvisionFlashClear d.radio env.radioExec).1 := by
  unfold radioDone
  rw [bridgeCommand_clearRadio hcmd, Option.any_some]
  unfold bleHandleClearRadio
  rw [if_neg (not_not_intro hadmin), if_neg hmounted]
  dsimp only
  cases (radioProvisionFlashClear d.radio env.radioExec).1 <;> rfl

/-- SET_RADIO, past its checks, is a write of the register. -/
theorem setRadio_step {image : Sector} (hcmd : byteOf p 0 = bleCmdSetRadio)
    (himage : radioImage d env p = .ok image) {ssid psk : List UInt8}
    (hbuilt : radioConfigBuild2 ssid psk = some image) :
    Lib.Register.Step none (radioProvisionFlashRead d.radio)
      ⟨some (plainConfig ssid psk), radioDone d env p⟩
      (radioProvisionFlashRead (bleHandleAuthenticatedCommand d env p).2.radio) := by
  have hread : radioProvisionFlashRead image = some (plainConfig ssid psk) :=
    radioConfigBuild2_iff.mp hbuilt
  have hafter : (bleHandleSetRadio d env p).2.radio
      = (radioProvisionFlashWriteAndVerify d.radio image env.radioExec).2 := by
    unfold bleHandleSetRadio
    rw [himage]
  rw [authenticated_radio (by rw [hcmd]; decide) (bridgeCommand_setRadio hcmd), hafter,
    radioDone_set hcmd himage]
  cases hwritten : (radioProvisionFlashWriteAndVerify d.radio image env.radioExec).1 with
  | true =>
      rw [writeAndVerify_ok hwritten, hread]
      exact .written _ _
  | false =>
      rcases write_leaves d.radio image env.radioExec with hold | hnew
      · rw [hold]
        exact .kept _ rfl
      · rw [hnew, hread]
        exact .written _ _

/-- So is CLEAR_RADIO. -/
theorem clearRadio_step (hcmd : byteOf p 0 = bleCmdClearRadio)
    (hadmin : controllerStoreIsAdmin d.controllers d.noise.noiseAuthenticatedSlot = true)
    (hmounted : ¬env.tudMounted) :
    Lib.Register.Step none (radioProvisionFlashRead d.radio) ⟨none, radioDone d env p⟩
      (radioProvisionFlashRead (bleHandleAuthenticatedCommand d env p).2.radio) := by
  have hafter : (bleHandleClearRadio d env).2.radio
      = (radioProvisionFlashClear d.radio env.radioExec).2 := by
    unfold bleHandleClearRadio
    rw [if_neg (not_not_intro hadmin), if_neg hmounted]
  rw [authenticated_radio (by rw [hcmd]; decide) (bridgeCommand_clearRadio hcmd), hafter,
    radioDone_clear hcmd hadmin hmounted]
  rcases clear_leaves d.radio env.radioExec with herased | ⟨hfailed, hold⟩
  · rw [herased, read_erased]
    exact .written _ _
  · rw [hfailed, hold]
    exact .kept _ rfl

/-- Any other command leaves the sector as it is. -/
theorem unasked_radio (h : radioAsked d env p = none) :
    (bleHandleAuthenticatedCommand d env p).2.radio = d.radio := by
  rcases command_radio d env p with hsame | ⟨hset | hclear, hadmin⟩
  · exact hsame
  · rw [authenticated_radio (by rw [hset]; decide) (bridgeCommand_setRadio hset)]
    cases himage : radioImage d env p with
    | error st => rw [bleHandleSetRadio_error himage]
    | ok image =>
        unfold radioAsked at h
        rw [if_pos hset, himage] at h
        cases h
  · rw [authenticated_radio (by rw [hclear]; decide) (bridgeCommand_clearRadio hclear)]
    have hmounted : env.tudMounted = true := by
      by_contra hno
      unfold radioAsked at h
      rw [if_neg (by rw [hclear]; decide), if_pos ⟨hclear, hadmin, hno⟩] at h
      cases h
    unfold bleHandleClearRadio
    rw [if_neg (not_not_intro hadmin), if_pos hmounted]

/-- The flash operations of a request. -/
theorem radioOps_unasked (h : radioAsked d env p = none) : radioOps d env p = [] := by
  unfold radioAsked at h
  unfold radioOps
  by_cases hset : byteOf p 0 = bleCmdSetRadio
  · rw [if_pos hset] at h ⊢
    cases himage : radioImage d env p with
    | error st => rfl
    | ok image =>
        rw [himage] at h
        cases h
  · rw [if_neg hset] at h ⊢
    split at h
    next => cases h
    next hno => rw [if_neg hno]

theorem radioOps_set {image : Sector} (hcmd : byteOf p 0 = bleCmdSetRadio)
    (himage : radioImage d env p = .ok image) {ssid psk : List UInt8}
    (hbuilt : radioConfigBuild2 ssid psk = some image) :
    radioOps d env p = radioProgramOps image := by
  unfold radioOps
  rw [if_pos hcmd, himage]
  dsimp only
  rw [radioConfigBuild2_iff.mp hbuilt]
  exact if_pos rfl

theorem radioOps_clear (hcmd : byteOf p 0 = bleCmdClearRadio)
    (hadmin : controllerStoreIsAdmin d.controllers d.noise.noiseAuthenticatedSlot = true)
    (hmounted : ¬env.tudMounted) : radioOps d env p = [.erase] := by
  unfold radioOps
  rw [if_neg (by rw [hcmd]; decide), if_pos ⟨hcmd, hadmin, hmounted⟩]

-- ================================================================ the steps

/-- A frame's decryption does not bear on its request. -/
theorem Dispatches.asked {data : List UInt8} {d₁ : Device} (h : Dispatches lib d data p d₁)
    (env : FrameEnv) :
    d₁.radio = d.radio ∧ radioAsked d₁ env p = radioAsked d env p ∧
      (radioAsked d env p ≠ none → radioDone d₁ env p = radioDone d env p) := by
  obtain ⟨-, -, noise, hopen, rfl⟩ := h
  obtain ⟨-, -, rfl⟩ := decryptPacket_ok hopen
  have hram : ({ d with noise := { d.noise with receiveNonce := d.noise.receiveNonce + 1 } }
    : Device).controllers = d.controllers := rfl
  have hslot : ({ d with noise := { d.noise with receiveNonce := d.noise.receiveNonce + 1 } }
    : Device).noise.noiseAuthenticatedSlot = d.noise.noiseAuthenticatedSlot := rfl
  have himage : radioImage { d with noise := { d.noise with
      receiveNonce := d.noise.receiveNonce + 1 } } env p = radioImage d env p := by
    unfold radioImage
    rw [hram, hslot]
  refine ⟨rfl, ?_, fun hasked => ?_⟩
  · unfold radioAsked
    rw [himage, hram, hslot]
  · rcases radioAsked_cases d env p with hnone | ⟨image, hcmd, hok, -⟩ | ⟨hcmd, hadmin, hmounted, -⟩
    · exact absurd hnone hasked
    · rw [radioDone_set hcmd hok, radioDone_set hcmd (himage.trans hok)]
    · rw [radioDone_clear hcmd hadmin hmounted,
        radioDone_clear hcmd (by rw [hram, hslot]; exact hadmin) hmounted]

variable (lib) in
theorem afterCommand_radio (d₁ : Device) (env : FrameEnv) (p : List UInt8) (respCap : Nat) :
    (afterCommand lib d₁ env p respCap).2.radio
      = (bleHandleAuthenticatedCommand d₁ env p).2.radio := by
  obtain ⟨noise, hsend⟩ := sendReceipt_noise lib (bleHandleAuthenticatedCommand d₁ env p).2
    respCap (bleHandleAuthenticatedCommand d₁ env p).1
  unfold afterCommand
  dsimp only
  rw [hsend]

/-- A frame that asks for nothing. -/
theorem frame_unasked {env : FrameEnv} {data : List UInt8}
    (h : radioWrite lib (.on d) (.frame env data) = none) (respCap : Nat) :
    (commandProcessFrame lib d env data respCap).2.radio = d.radio := by
  rcases frame_cases lib d env data respCap with
    ⟨hframe, -⟩ | ⟨-, response, hframe⟩ | ⟨p, d₁, hdispatch, hframe⟩
  · rw [hframe]
  · rw [hframe]
  · obtain ⟨hradio, hasked, -⟩ := hdispatch.asked env
    unfold radioWrite at h
    dsimp only at h
    rw [framePlaintext_iff.mpr ⟨d₁, hdispatch⟩, Option.bind_some, Option.map_eq_none_iff,
      ← hasked] at h
    rw [hframe, afterCommand_radio, unasked_radio h, hradio]

/-- A frame that asks for a write. -/
theorem frame_asked {env : FrameEnv} {data : List UInt8} {write : Write (Option RadioConfig)}
    (h : radioWrite lib (.on d) (.frame env data) = some write) (respCap : Nat) :
    Lib.Register.Step none (radioProvisionFlashRead d.radio) write
      (radioProvisionFlashRead (commandProcessFrame lib d env data respCap).2.radio) := by
  unfold radioWrite at h
  dsimp only at h
  obtain ⟨p, hopens, h⟩ := Option.bind_eq_some_iff.mp h
  obtain ⟨asked, hasked, rfl⟩ := Option.map_eq_some_iff.mp h
  obtain ⟨d₁, hdispatch⟩ := framePlaintext_iff.mp hopens
  obtain ⟨hradio, hsame, hdone⟩ := hdispatch.asked env
  rw [frame_dispatched hdispatch env respCap, afterCommand_radio, ← hradio,
    ← hdone (by rw [hasked]; exact Option.some_ne_none asked)]
  rw [← hsame] at hasked
  rcases radioAsked_cases d₁ env p with
    hnone | ⟨image, hcmd, himage, hbuilt, hset⟩ | ⟨hcmd, hadmin, hmounted, hclear⟩
  · rw [hnone] at hasked
    cases hasked
  · obtain rfl := Option.some.inj (hset.symm.trans hasked)
    exact setRadio_step hcmd himage hbuilt
  · obtain rfl := Option.some.inj (hclear.symm.trans hasked)
    exact clearRadio_step hcmd hadmin hmounted

/-- The same where power is lost inside the frame. -/
theorem frameCut_unasked {env : FrameEnv} {data : List UInt8} {cut : PowerCut}
    (h : radioWrite lib (.on d) (.frameCut env data cut) = none) :
    (frameCut lib d env data cut).2 = d.radio := by
  unfold radioWrite at h
  dsimp only at h
  unfold frameCut
  cases hopens : framePlaintext lib d.noise data with
  | none => rfl
  | some p =>
      rw [hopens, Option.bind_some, Option.map_eq_none_iff] at h
      dsimp only
      unfold commandCut
      rw [radioOps_unasked h]
      cases cut.done <;> cases cut.torn <;> rfl

theorem frameCut_asked {env : FrameEnv} {data : List UInt8} {cut : PowerCut}
    {write : Write (Option RadioConfig)}
    (h : radioWrite lib (.on d) (.frameCut env data cut) = some write)
    (htears : RadioTears lib (.on d) (.frameCut env data cut)) :
    Lib.Register.Step none (radioProvisionFlashRead d.radio) write
      (radioProvisionFlashRead (frameCut lib d env data cut).2) := by
  unfold radioWrite at h
  dsimp only at h
  obtain ⟨p, hopens, h⟩ := Option.bind_eq_some_iff.mp h
  obtain ⟨asked, hasked, rfl⟩ := Option.map_eq_some_iff.mp h
  have htears := htears d p rfl hopens
  have hcut : (frameCut lib d env data cut).2
      = cutImage (radioOps d env p) cut.done cut.torn d.radio := by
    unfold frameCut
    rw [hopens]
    rfl
  rw [hcut]
  rcases radioAsked_cases d env p with
    hnone | ⟨image, hcmd, himage, hbuilt, hset⟩ | ⟨hcmd, hadmin, hmounted, hclear⟩
  · rw [hnone] at hasked
    cases hasked
  · obtain rfl := Option.some.inj (hset.symm.trans hasked)
    rw [radioOps_set hcmd himage hbuilt] at htears ⊢
    rcases cutImage_reads hbuilt htears with hleft | hleft | hleft
    · rw [hleft]
      exact .lost _ rfl
    · rw [hleft]
      exact .kept _ rfl
    · rw [hleft]
      exact .written _ _
  · obtain rfl := Option.some.inj (hclear.symm.trans hasked)
    rw [radioOps_clear hcmd hadmin hmounted] at htears ⊢
    rcases cutErase_reads htears with hleft | hleft
    · rw [hleft]
      exact .written _ _
    · rw [hleft]
      exact .kept _ rfl

/-- A step of a life is a write of the register, or leaves the sector. -/
theorem radio_step (keys : HeaderKeys) {w : Power} {i : Happening} (htears : RadioTears lib w i) :
    (radioWrite lib w i = none ∧ (powerStep lib keys w i).radio = w.radio) ∨
      ∃ write, radioWrite lib w i = some write ∧
        Lib.Register.Step none (radioProvisionFlashRead w.radio) write
          (radioProvisionFlashRead (powerStep lib keys w i).radio) := by
  cases i with
  | boot seedExec importExec =>
      refine .inl ⟨rfl, ?_⟩
      unfold powerStep bootPower
      dsimp only
      split <;> rfl
  | bootCut phase cut => exact .inl ⟨rfl, rfl⟩
  | frame env data =>
      cases w with
      | off store radio => exact .inl ⟨rfl, rfl⟩
      | on d =>
          cases hwrite : radioWrite lib (.on d) (.frame env data) with
          | none => exact .inl ⟨rfl, frame_unasked hwrite bridgeTransportResponseMax⟩
          | some write => exact .inr ⟨write, rfl, frame_asked hwrite bridgeTransportResponseMax⟩
  | frameCut env data cut =>
      cases w with
      | off store radio => exact .inl ⟨rfl, rfl⟩
      | on d =>
          cases hwrite : radioWrite lib (.on d) (.frameCut env data cut) with
          | none => exact .inl ⟨rfl, frameCut_unasked hwrite⟩
          | some write => exact .inr ⟨write, rfl, frameCut_asked hwrite htears⟩
  | core call => cases w <;> exact .inl ⟨rfl, rfl⟩
  | powerOff => exact .inl ⟨rfl, rfl⟩

-- ================================================================= the runs

/-- A life refines the register. -/
theorem radio_refines {w : Power} {is : List Happening}
    (htears : (radioMachine lib keys).StepsMeet (RadioTears lib) w is) :
    Trace (Lib.Register.Step none) (radioProvisionFlashRead w.radio)
      ((radioMachine lib keys).trace w is)
      (radioProvisionFlashRead ((radioMachine lib keys).final w is).radio) := by
  have hsim : ∀ (w : Power) (read : Option RadioConfig) (i : Happening),
      radioProvisionFlashRead w.radio = read → RadioTears lib w i →
        ∃ read', Trace (Lib.Register.Step none) read ((radioMachine lib keys).step w i).2 read' ∧
          radioProvisionFlashRead ((radioMachine lib keys).step w i).1.radio = read' := by
    intro w read i hread htears
    have houts : ((radioMachine lib keys).step w i).2 = (radioWrite lib w i).toList := rfl
    rw [houts]
    rcases radio_step keys htears with ⟨hnone, hsame⟩ | ⟨write, hsome, hstep⟩
    · rw [hnone]
      exact ⟨read, .nil read, (congrArg radioProvisionFlashRead hsame).trans hread⟩
    · rw [hsome, ← hread]
      exact ⟨_, .cons hstep (.nil _), rfl⟩
  obtain ⟨read, htrace, hread⟩ :=
    (radioMachine lib keys).trace_of_sim_guarded hsim is w _ rfl htears
  rwa [hread]

/-- Without a write the sector stays, bit for bit. -/
theorem radio_stays {w : Power} {is : List Happening}
    (htears : (radioMachine lib keys).StepsMeet (RadioTears lib) w is)
    (hnone : (radioMachine lib keys).trace w is = []) :
    ((radioMachine lib keys).final w is).radio = w.radio := by
  have hrun := (radioMachine lib keys).run_inv (G := RadioTears lib)
    (P := fun w' writes => writes = [] → w'.radio = w.radio) ?_ is w [] (fun _ => rfl) htears
  · exact hrun hnone
  · intro w' writes i hsame htears hempty
    obtain ⟨hbefore, hnow⟩ := List.append_eq_nil_iff.mp hempty
    rcases radio_step keys htears with ⟨-, hstep⟩ | ⟨write, hsome, -⟩
    · exact hstep.trans (hsame hbefore)
    · have houts : ((radioMachine lib keys).step w' i).2 = (radioWrite lib w' i).toList := rfl
      rw [houts, hsome] at hnow
      cases hnow

/-- A ssid and a psk. -/
def benchSsid : List UInt8 := [110, 101, 116]

def benchPsk : List UInt8 := [112, 97, 115, 115, 119, 111, 114, 100]

/-- A write that flash does is verified. -/
theorem write_ok {ssid psk : List UInt8} {image : Sector}
    (h : radioConfigBuild2 ssid psk = some image) (radio : Sector) :
    (radioProvisionFlashWriteAndVerify radio image .ok).1 = true := by
  unfold radioProvisionFlashWriteAndVerify
  rw [radioProgramOps_run, radioConfigBuild2_iff.mp h]
  dsimp only
  rw [if_neg (not_not_intro rfl), radioConfigBuild2_iff.mp h]
  dsimp only
  rw [beq_self_eq_true, beq_self_eq_true, Bool.and_self]

/-- The recovery admin's session provisions the radio. -/
theorem bench_provisions {host : NoiseIKInitiator} {noise : NoiseIkCtx}
    (hpaired : Paired host noise) (hslot : noise.authenticatedSlot = 0) :
    ∃ data, radioWrite (toyCrypto none) (.on { bootedBench with noise := noise })
      (.frame benchEnv data) = some ⟨some (plainConfig benchSsid benchPsk), true⟩ := by
  obtain ⟨data, -, hdispatch⟩ := @bench_sends_command host { bootedBench with noise := noise }
    hpaired (setRadioFrame benchSsid benchPsk) (by decide +kernel)
  have hopens : framePlaintext (toyCrypto none) noise data
      = some (setRadioFrame benchSsid benchPsk) :=
    framePlaintext_iff.mpr ⟨_, hdispatch⟩
  have hadmin : controllerStoreIsAdmin benchProvisioning.imported noise.noiseAuthenticatedSlot
      = true := by
    rw [NoiseIkCtx.noiseAuthenticatedSlot, hpaired.ready, if_pos rfl, hslot]
    decide +kernel
  obtain ⟨image, hbuilt⟩ : ∃ image, radioConfigBuild2 benchSsid benchPsk = some image :=
    ⟨_, if_neg (by decide)⟩
  have himage : radioImage { bootedBench with noise := noise } benchEnv
      (setRadioFrame benchSsid benchPsk) = .ok image :=
    (radioImage_frame hadmin rfl (by decide) (by decide)).2 image hbuilt
  have hasked : radioAsked { bootedBench with noise := noise } benchEnv
      (setRadioFrame benchSsid benchPsk) = some (some (plainConfig benchSsid benchPsk)) := by
    have hcmd : byteOf (setRadioFrame benchSsid benchPsk) 0 = bleCmdSetRadio := rfl
    unfold radioAsked
    rw [if_pos hcmd, himage]
    rfl
  have hdone : radioDone { bootedBench with noise := noise } benchEnv
      (setRadioFrame benchSsid benchPsk) = true := by
    rw [radioDone_set rfl himage]
    exact write_ok hbuilt _
  refine ⟨data, ?_⟩
  unfold radioWrite
  dsimp only
  rw [hopens, Option.bind_some, hasked, hdone]
  rfl

/-- Whose credentials the device has. Over any life of commands, failed
writes, reboots and power cuts, where a cut tears the radio sector only as
flash does: the sector changes with an admin's SET_RADIO or CLEAR_RADIO on
an unmounted device and with nothing else; once one has returned OK, what
it asked for is what is read until the next; and whatever is read comes
from the last one that returned OK or from a later one that failed or was
cut, or was there from the start. -/
theorem radio_last_asked {w : Power} {is : List Happening}
    (htears : (radioMachine lib keys).StepsMeet (RadioTears lib) w is) :
    let final := (radioMachine lib keys).final w is
    let writes := (radioMachine lib keys).trace w is
    (writes = [] → final.radio = w.radio) ∧
      (∀ earlier asked, writes = earlier ++ [⟨asked, true⟩] →
        radioProvisionFlashRead final.radio = asked) ∧
      ∀ config, radioProvisionFlashRead final.radio = some config →
        (radioProvisionFlashRead w.radio = some config ∧ ∀ x ∈ writes, x.done = false) ∨
          ∃ earlier done later, writes = earlier ++ ⟨some config, done⟩ :: later ∧
            ∀ x ∈ later, x.done = false := by
  intro final writes
  have hrefines : Trace (Lib.Register.Step none) (radioProvisionFlashRead w.radio) writes
      (radioProvisionFlashRead final.radio) := radio_refines htears
  refine ⟨radio_stays htears, fun earlier asked hlast => ?_, fun config hconfig => ?_⟩
  · rw [hlast] at hrefines
    exact Lib.Register.trace_done hrefines
  · rw [hconfig] at hrefines
    rcases Lib.Register.trace_origin hrefines with
      ⟨hkept, hundone⟩ | hlost | ⟨earlier, write, later, hsplit, hvalue, hundone⟩
    · exact .inl ⟨hkept.symm, hundone⟩
    · cases hlost
    · rcases write with ⟨value, done⟩
      obtain rfl : value = some config := hvalue
      exact .inr ⟨earlier, done, later, hsplit, hundone⟩

/-- The credentials are read after the next boot. -/
theorem radio_last_asked_bench : ∃ noise data,
    (radioMachine (toyCrypto none) benchKeys).trace (.on { bootedBench with noise := noise })
        [.frame benchEnv data, .powerOff, .boot .ok .ok]
      = [⟨some (plainConfig benchSsid benchPsk), true⟩] ∧
      radioProvisionFlashRead ((radioMachine (toyCrypto none) benchKeys).final
          (.on { bootedBench with noise := noise })
          [.frame benchEnv data, .powerOff, .boot .ok .ok]).radio
        = some (plainConfig benchSsid benchPsk) := by
  obtain ⟨-, host, noise, -, hslot, hpaired⟩ := bench_session
  obtain ⟨data, hwrite⟩ := bench_provisions hpaired hslot
  have htrace : (radioMachine (toyCrypto none) benchKeys).trace
      (.on { bootedBench with noise := noise }) [.frame benchEnv data, .powerOff, .boot .ok .ok]
      = [⟨some (plainConfig benchSsid benchPsk), true⟩] :=
    congrArg (fun write : Option (Write (Option RadioConfig)) => write.toList ++ []) hwrite
  have htears : (radioMachine (toyCrypto none) benchKeys).StepsMeet (RadioTears (toyCrypto none))
      (.on { bootedBench with noise := noise }) [.frame benchEnv data, .powerOff, .boot .ok .ok] :=
    ⟨trivial, trivial, trivial, trivial⟩
  exact ⟨noise, data, htrace, (radio_last_asked htears).2.1 [] _ htrace⟩

end PicoBridge
