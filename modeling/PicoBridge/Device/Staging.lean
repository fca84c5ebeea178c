/-
Stage frames: what `ble_handle_stage` reads of a frame, and which frames
it makes a job of.

# In bounds

`bleHandleStageChecked` is the handler with reads that may fail
(Core/Bounds.lean). The length test is made modulo 2^16, so a length
field from 65522 on passes it in any frame; but such a length is refused
by `bridge_core_stage` before it reads, and a length that it does not
refuse does not wrap.

# What is staged

The handler reads any layout byte but 2 as US and any mode byte but 2 as
PASSWORD, so the checks of these in `bridge_core_stage` never fire on a
frame; and it takes a frame that goes on behind its text. `Stages` says of
a device and a frame, before it is handled, that it will be staged;
`stage_fail_closed_iff` is that a frame is handled fail-closed where it
will not, or is one that `build_stage_packet` builds.
-/
import PicoBridge.Core.Bounds
import PicoBridge.Core.Typing
import PicoBridge.Device.Packets
import PicoBridge.Device.Policy

namespace PicoBridge

open Lib.Utf8 (encode)

-- =============================================================== in bounds

/-- The little-endian `uint32_t` at `p + i`. -/
def u32Checked (p : List UInt8) (i : Nat) : Option UInt32 :=
  match p[i]?, p[i + 1]?, p[i + 2]?, p[i + 3]? with
  | some a, some b, some c, some d => some (UInt32.ofNat (leValue [a, b, c, d]))
  | _, _, _, _ => none

/-- The little-endian `uint16_t` at `p + i`. -/
def u16Checked (p : List UInt8) (i : Nat) : Option Nat :=
  match p[i]?, p[i + 1]? with
  | some a, some b => some (leValue [a, b])
  | _, _ => none

/-- `ble_handle_stage`, which returns none where it reads outside the
frame. -/
def bleHandleStageChecked (core : BridgeCore) (bleNowMs : UInt32) (p : List UInt8) :
    Option (BridgeStatus × BridgeCore) :=
  if p.length < 14 then some (.errArgument, core)
  else do
    let owner ← u32Checked p 1
    let id ← u32Checked p 5
    let layout ← p[9]?
    let mode ← p[10]?
    let flags ← p[11]?
    let ulen ← u16Checked p 12
    if p.length < (14 + ulen) % 65536 then some (.errArgument, core)
    else
      bridgeCoreStageChecked core owner id
        (if layout = 2 then bridgeLayoutDe else bridgeLayoutUs)
        (if mode = 2 then bridgeModeText else bridgeModePassword) flags (some (p.drop 14)) ulen
        bleNowMs bridgeTtlMs

theorem u32Checked_eq {p : List UInt8} {i : Nat} (h : i + 3 < p.length) :
    u32Checked p i = some (u32Of p i) := by
  unfold u32Checked
  rw [getElem?_eq_getD (by omega), getElem?_eq_getD (by omega), getElem?_eq_getD (by omega),
    getElem?_eq_getD h]
  rfl

theorem u16Checked_eq {p : List UInt8} {i : Nat} (h : i + 1 < p.length) :
    u16Checked p i = some (u16Of p i) := by
  unfold u16Checked
  rw [getElem?_eq_getD (by omega), getElem?_eq_getD h]
  rfl

/-- The handler stays within the frame. -/
theorem bleHandleStage_checked (core : BridgeCore) (bleNowMs : UInt32) (p : List UInt8) :
    bleHandleStageChecked core bleNowMs p = some (bleHandleStage core bleNowMs p) := by
  unfold bleHandleStageChecked bleHandleStage
  by_cases hshort : p.length < 14
  · rw [if_pos hshort, if_pos hshort]
  rw [if_neg hshort, if_neg hshort, u32Checked_eq (by omega), u32Checked_eq (by omega),
    getElem?_eq_getD (by omega), getElem?_eq_getD (by omega), getElem?_eq_getD (by omega),
    u16Checked_eq (by omega)]
  simp only [Option.bind_eq_bind, Option.bind_some]
  by_cases hwrap : p.length < (14 + u16Of p 12) % 65536
  · rw [if_pos hwrap, if_pos hwrap]
  rw [if_neg hwrap, if_neg hwrap]
  refine bridgeCoreStage_checked core _ _ _ _ _ (fun hmax => ?_) _ _
  -- a length that is not refused does not wrap
  unfold bridgeMaxInputBytes at hmax
  rw [List.length_drop]
  omega

/-- A stage never leaves its buffers. Every frame is handled without a
read outside it. The loop neither reads beyond an input of up to
`BRIDGE_MAX_INPUT_BYTES` bytes nor writes beyond the stroke array; at the
head of each of its turns there are at most two strokes for each byte it
has read, and a turn reads at least one. -/
theorem stage_in_bounds :
    (∀ core bleNowMs p,
      bleHandleStageChecked core bleNowMs p = some (bleHandleStage core bleNowMs p)) ∧
    ∀ layout mode flags input core, input.length ≤ bridgeMaxInputBytes → core.strokeCount = 0 →
      stageLoopChecked layout mode flags input input.length core 0
        = some (stageLoop layout mode flags input input.length core 0) ∧
      ∀ core' offset, StageHead layout mode flags input input.length core core' offset →
        core'.strokeCount ≤ 2 * offset ∧ offset ≤ input.length ∧
        ∀ next, offset < input.length →
          stageTurn layout mode flags input input.length core' offset = .ok next →
          offset < next.2 := by
  refine ⟨bleHandleStage_checked, ?_⟩
  intro layout mode flags input core hmax hcount
  refine ⟨stageLoop_checked (Nat.le_refl _) hmax (by omega), fun core' offset hhead => ?_⟩
  obtain ⟨hstrokes, hle⟩ := hhead.count hcount
  exact ⟨hstrokes, hle, fun next hlt hturn => (stageTurn_ok hlt hturn).1⟩

-- ============================================================ what is staged

/-- The layout that a frame is read with. -/
def layoutOf (p : List UInt8) : UInt32 := if byteOf p 9 = 2 then bridgeLayoutDe else bridgeLayoutUs

/-- The mode that a frame is read with. -/
def modeOf (p : List UInt8) : UInt32 :=
  if byteOf p 10 = 2 then bridgeModeText else bridgeModePassword

/-- A frame whose layout and mode are defined, and that ends with its
text. -/
structure Canonical (p : List UInt8) : Prop where
  layout : byteOf p 9 = 1 ∨ byteOf p 9 = 2
  mode : byteOf p 10 = 1 ∨ byteOf p 10 = 2
  length : p.length = 14 + u16Of p 12

/-- A frame that the device will make a job of, as it is read: it passes
the length tests, the core is free, its parameters and the ledger allow
it, and its text can be typed. -/
structure Stages (d : Device) (p : List UInt8) : Prop where
  header : 14 ≤ p.length
  length : (14 + u16Of p 12) % 65536 ≤ p.length
  idle : ¬d.core.live
  admissible : Admissible d.core (u32Of p 1) (u32Of p 5) (layoutOf p) (modeOf p) (byteOf p 11)
    (u16Of p 12) bridgeTtlMs
  text : ∃ cs, inputBytes (p.drop 14) (u16Of p 12) = encode cs ∧
    TypableText (layoutOf p) (modeOf p) (byteOf p 11) cs

/-- The frame has made a job. -/
def Created (d : Device) (env : FrameEnv) (p : List UInt8) : Prop :=
  ¬d.core.live ∧ (bleHandleAuthenticatedCommand d env p).2.core.state = .staged

/-- A job is made of a stage packet of its own fields only; a frame with
an undefined layout or mode, or with bytes behind its text, makes none and
is refused. -/
def FailClosed (d : Device) (env : FrameEnv) (p : List UInt8) : Prop :=
  let after := (bleHandleAuthenticatedCommand d env p).2
  (Created d env p → ∃ payload, buildStagePacket after.core.owner.toNat after.core.id.toNat
    after.core.layout.toNat after.core.mode.toNat after.core.flags.toNat payload = some p) ∧
  (¬Canonical p → ¬Created d env p ∧ after.cmdAckStatus ≠ BridgeStatus.ok.toByte)

/-- The handler, past its length tests. -/
theorem bleHandleStage_eq {core : BridgeCore} {now : UInt32} {p : List UInt8}
    (hheader : 14 ≤ p.length) (hlength : (14 + u16Of p 12) % 65536 ≤ p.length) :
    bleHandleStage core now p
      = bridgeCoreStage core (u32Of p 1) (u32Of p 5) (layoutOf p) (modeOf p) (byteOf p 11)
          (some (p.drop 14)) (u16Of p 12) now bridgeTtlMs := by
  unfold bleHandleStage
  rw [if_neg (by omega)]
  dsimp only
  rw [if_neg (by omega)]
  rfl

/-- A stage leaves a free core staged exactly where it returns OK, with
the job under its arguments. -/
theorem stage_staged {core : BridgeCore} (hidle : ¬core.live) (owner id layout mode : UInt32)
    (flags : UInt8) (utf8 : Option (List UInt8)) (length : Nat) (nowMs ttlMs : UInt32) :
    let r := bridgeCoreStage core owner id layout mode flags utf8 length nowMs ttlMs
    (r.2.state = .staged ↔ r.1 = .ok) ∧
      (r.1 = .ok → r.2.owner = owner ∧ r.2.id = id ∧ r.2.layout = layout ∧ r.2.mode = mode ∧
        r.2.flags = flags) := by
  intro r
  rcases bridgeCoreStage_cases core owner id layout mode flags utf8 length nowMs ttlMs with
    ⟨hlive, -⟩ | ⟨-, st, hok, -, hr⟩ | ⟨-, -, -, input, n, f, -, hr, -⟩
  · exact absurd hlive hidle
  · rw [show r = _ from hr]
    exact ⟨iff_of_false (by intro h; cases h) hok, fun h => absurd h hok⟩
  · rw [show r = _ from hr]
    exact ⟨iff_of_true rfl rfl, fun _ => ⟨rfl, rfl, rfl, rfl, rfl⟩⟩

/-- A frame is answered OK where it was to be staged. -/
theorem stages_iff_ok (d : Device) (now : UInt32) (p : List UInt8) :
    Stages d p ↔ (bleHandleStage d.core now p).1 = .ok := by
  constructor
  · intro h
    obtain ⟨cs, htext⟩ := h.text
    rw [bleHandleStage_eq h.header h.length]
    exact (stage_ok_iff h.idle _ _ _ _ _ _ _ _ _).mpr ⟨h.admissible, _, cs, rfl, htext⟩
  · intro hok
    have hheader : 14 ≤ p.length := by
      by_contra hshort
      unfold bleHandleStage at hok
      rw [if_pos (by omega)] at hok
      cases hok
    have hlength : (14 + u16Of p 12) % 65536 ≤ p.length := by
      by_contra hshort
      unfold bleHandleStage at hok
      rw [if_neg (by omega)] at hok
      dsimp only at hok
      rw [if_pos (by omega)] at hok
      cases hok
    rw [bleHandleStage_eq hheader hlength] at hok
    have hidle := idle_of_ok hok
    obtain ⟨hadm, input, cs, hinput, htext⟩ := (stage_ok_iff hidle _ _ _ _ _ _ _ _ _).mp hok
    cases hinput
    exact ⟨hheader, hlength, hidle, hadm, cs, htext⟩

/-- A frame that is to be staged makes a job, under the fields as they are
read. -/
theorem Stages.job {d : Device} {p : List UInt8} (h : Stages d p) (now : UInt32) :
    let core := (bleHandleStage d.core now p).2
    core.state = .staged ∧ core.owner = u32Of p 1 ∧ core.id = u32Of p 5 ∧
      core.layout = layoutOf p ∧ core.mode = modeOf p ∧ core.flags = byteOf p 11 := by
  have hok := (stages_iff_ok d now p).mp h
  have hstaged := stage_staged h.idle (u32Of p 1) (u32Of p 5) (layoutOf p) (modeOf p) (byteOf p 11)
    (some (p.drop 14)) (u16Of p 12) now bridgeTtlMs
  rw [bleHandleStage_eq h.header h.length] at hok ⊢
  exact ⟨hstaged.1.mpr hok, hstaged.2 hok⟩

/-- No other frame makes one. -/
theorem stages_of_staged {d : Device} {p : List UInt8} {now : UInt32} (hidle : ¬d.core.live)
    (hstaged : (bleHandleStage d.core now p).2.state = .staged) : Stages d p := by
  rw [stages_iff_ok d now]
  by_cases hheader : p.length < 14
  · unfold bleHandleStage at hstaged
    rw [if_pos hheader] at hstaged
    exact absurd (.inl hstaged) hidle
  by_cases hlength : p.length < (14 + u16Of p 12) % 65536
  · unfold bleHandleStage at hstaged
    rw [if_neg hheader] at hstaged
    dsimp only at hstaged
    rw [if_pos hlength] at hstaged
    exact absurd (.inl hstaged) hidle
  rw [bleHandleStage_eq (by omega) (by omega)] at hstaged ⊢
  exact (stage_staged hidle _ _ _ _ _ _ _ _ _).1.mp hstaged

/-- A frame makes a job where it was to. -/
theorem created_iff (d : Device) (env : FrameEnv) {p : List UInt8}
    (hcmd : byteOf p 0 = bleCmdStage) : Created d env p ↔ Stages d p := by
  unfold Created
  rw [stage_frame d env hcmd]
  constructor
  · rintro ⟨hidle, hstaged⟩
    exact stages_of_staged hidle hstaged
  · intro h
    exact ⟨h.idle, (h.job env.bleNowMs).1⟩

/-- A number read off the wire is written back as it was. -/
theorem leBytes_u32 (a b c d : UInt8) :
    leBytes 4 (UInt32.ofNat (leValue [a, b, c, d])).toNat = [a, b, c, d] := by
  have hlt : leValue [a, b, c, d] < 256 ^ 4 := leValue_lt [a, b, c, d]
  rw [show (256 : Nat) ^ 4 = 2 ^ 32 by norm_num] at hlt
  rw [UInt32.toNat_ofNat', Nat.mod_eq_of_lt hlt]
  exact leBytes_leValue [a, b, c, d]

/-- A frame is its header and the rest. -/
theorem header_eq {p : List UInt8} (hheader : 14 ≤ p.length) (hcmd : byteOf p 0 = bleCmdStage) :
    stageHeader (u32Of p 1) (u32Of p 5) (byteOf p 9) (byteOf p 10) (byteOf p 11) (u16Of p 12)
      ++ p.drop 14 = p := by
  match p, hheader, hcmd with
  | b0 :: b1 :: b2 :: b3 :: b4 :: b5 :: b6 :: b7 :: b8 :: b9 :: b10 :: b11 :: b12 :: b13 :: rest,
      _, hcmd =>
      have howner := leBytes_u32 b1 b2 b3 b4
      have hid := leBytes_u32 b5 b6 b7 b8
      have hlength := leBytes_leValue [b12, b13]
      unfold stageHeader
      rw [show (u32Of _ 1) = UInt32.ofNat (leValue [b1, b2, b3, b4]) from rfl, howner,
        show (u32Of _ 5) = UInt32.ofNat (leValue [b5, b6, b7, b8]) from rfl, hid,
        show u16Of _ 12 = leValue [b12, b13] from rfl,
        show leBytes 2 (leValue [b12, b13]) = [b12, b13] from hlength,
        show b0 = cmdStage from hcmd]
      rfl

theorem Canonical.layout_eq {p : List UInt8} (h : Canonical p) :
    (layoutOf p).toNat = (byteOf p 9).toNat := by
  unfold layoutOf
  rcases h.layout with hb | hb <;> rw [hb] <;> rfl

theorem Canonical.mode_eq {p : List UInt8} (h : Canonical p) :
    (modeOf p).toNat = (byteOf p 10).toNat := by
  unfold modeOf
  rcases h.mode with hb | hb <;> rw [hb] <;> rfl

/-- A frame that is canonical is the packet of its fields. -/
theorem Canonical.packet {p : List UInt8} (h : Canonical p) (hcmd : byteOf p 0 = bleCmdStage) :
    buildStagePacket (u32Of p 1).toNat (u32Of p 5).toNat (layoutOf p).toNat (modeOf p).toNat
      (byteOf p 11).toNat (p.drop 14) = some p := by
  have hulen : u16Of p 12 < 256 ^ 2 := leValue_lt [byteOf p 12, byteOf p 13]
  have hdrop : (p.drop 14).length = u16Of p 12 := by
    rw [List.length_drop, h.length]
    omega
  rw [h.layout_eq, h.mode_eq, buildStagePacket_eq _ _ _ _ _ (by rw [hdrop]; exact hulen), hdrop,
    header_eq (by rw [h.length]; omega) hcmd]

/-- A stage frame is handled fail-closed if and only if it is canonical
where it is to be staged. -/
theorem stage_fail_closed_iff (d : Device) (env : FrameEnv) {p : List UInt8}
    (hcmd : byteOf p 0 = bleCmdStage) :
    FailClosed d env p ↔ (Stages d p → Canonical p) := by
  have hcreated := created_iff d env hcmd
  have hframe := stage_frame d env hcmd
  constructor
  · intro hclosed hstages
    by_contra hcanonical
    exact (hclosed.2 hcanonical).1 (hcreated.mpr hstages)
  · intro hcanonical
    unfold FailClosed
    rw [hcreated, hframe]
    refine ⟨fun hstages => ⟨p.drop 14, ?_⟩, fun hbad => ⟨mt hcanonical hbad, fun hok => ?_⟩⟩
    · obtain ⟨-, howner, hid, hlayout, hmode, hflags⟩ := hstages.job env.bleNowMs
      dsimp only
      rw [howner, hid, hlayout, hmode, hflags]
      exact (hcanonical hstages).packet hcmd
    · refine hbad (hcanonical ((stages_iff_ok d env.bleNowMs p).mpr ?_))
      exact toByte_ok hok

/-- The stage of "a" is. -/
theorem stage_fail_closed_bench : FailClosed benchDevice (envAt 1000) stageFrame :=
  (stage_fail_closed_iff benchDevice (envAt 1000) (by decide)).mpr
    fun _ => ⟨by decide, by decide, by decide⟩

/-- The stage of "a" with 7 for its layout, and a byte behind its text. -/
def looseFrame : List UInt8 := [1, 7, 0, 0, 0, 1, 0, 0, 0, 7, 1, 0, 1, 0, 97, 98]

theorem looseFrame_stages : Stages benchDevice looseFrame where
  header := by decide
  length := by decide
  idle := by decide
  admissible := by constructor <;> decide
  text := ⟨['a'], by decide, by decide⟩

/-- It is staged, as US. -/
theorem stage_not_fail_closed : ¬FailClosed benchDevice (envAt 1000) looseFrame := by
  intro hclosed
  have hcreated := (created_iff benchDevice (envAt 1000) (by decide)).mpr looseFrame_stages
  exact (hclosed.2 (fun h => absurd h.length (by decide))).1 hcreated

end PicoBridge
