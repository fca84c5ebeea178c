/-
The stage within its buffers.

# The checked stage

The definitions here are those of Core/Bridge.lean again, but every read
of the input and every write to the stroke array is one that may fail: a
byte is `input[i]?`, and a stroke needs a slot of the array. They return
`none` at the first access outside. That they return what the plain ones
do (`bridgeCoreStage_checked`) is that there is none.

# The invariant

At the head of each turn of the loop, the offset is within the input and
there are at most two strokes for each byte before it (`StageHead`). A
turn reads at least one byte more and writes at most two strokes.
-/
import PicoBridge.Core.Strokes

namespace PicoBridge

-- ==================================================== the checked accesses

/-- The continuation loop of `decode_utf8`. -/
def decodeContinuationChecked (input : List UInt8) : Nat → Nat → Nat →
    Option (Except BridgeStatus (Nat × Nat))
  | 0, offset, cp => some (.ok (cp, offset))
  | n + 1, offset, cp =>
      match input[offset]? with
      | none => none
      | some byte =>
          if byte.toNat &&& 0xc0 ≠ 0x80 then some (.error .errUtf8)
          else
            decodeContinuationChecked input n (offset + 1)
              ((cp <<< 6) ||| (byte.toNat &&& 0x3f))

/-- `decode_utf8` past the lead byte. -/
def decodeTailChecked (input : List UInt8) (length offset cp continuation minimum : Nat) :
    Option (Except BridgeStatus (Nat × Nat)) :=
  if length - offset < continuation then some (.error .errUtf8)
  else
    match decodeContinuationChecked input continuation offset cp with
    | none => none
    | some (.error st) => some (.error st)
    | some (.ok (cp, offset)) =>
        if cp < minimum ∨ cp > 0x10ffff ∨ (0xd800 ≤ cp ∧ cp ≤ 0xdfff) then
          some (.error .errUtf8)
        else some (.ok (cp, offset))

/-- `decode_utf8`. -/
def decodeUtf8Checked (input : List UInt8) (length offset : Nat) :
    Option (Except BridgeStatus (Nat × Nat)) :=
  match input[offset]? with
  | none => none
  | some byte =>
      let lead := byte.toNat
      if lead < 0x80 then some (.ok (lead, offset + 1))
      else if 0xc2 ≤ lead ∧ lead ≤ 0xdf then
        decodeTailChecked input length (offset + 1) (lead &&& 0x1f) 1 0x80
      else if 0xe0 ≤ lead ∧ lead ≤ 0xef then
        decodeTailChecked input length (offset + 1) (lead &&& 0x0f) 2 0x800
      else if 0xf0 ≤ lead ∧ lead ≤ 0xf4 then
        decodeTailChecked input length (offset + 1) (lead &&& 0x07) 3 0x10000
      else some (.error .errUtf8)

/-- The CRLF look-ahead, which reads only where all before it holds. -/
def crlfReadChecked (mode : UInt32) (flags : UInt8) (utf8 : List UInt8)
    (length cp offset : Nat) : Option (Nat × Nat) :=
  if cp = 13 ∧ mode = bridgeModeText ∧ flags &&& bridgeFlagAllowLf ≠ 0 ∧ offset < length then
    match utf8[offset]? with
    | none => none
    | some byte => some (if byte = 10 then (10, offset + 1) else (cp, offset))
  else some (cp, offset)

/-- `core->strokes[core->stroke_count++] = stroke`. -/
def BridgeCore.pushChecked (core : BridgeCore) (stroke : BridgeStroke) : Option BridgeCore :=
  if core.strokeCount < bridgeMaxStrokes then some (core.push stroke) else none

/-- One turn of the loop: the core and the offset for the next one. The
slot of the character is taken before the character is looked up. -/
def stageTurnChecked (layout mode : UInt32) (flags : UInt8) (utf8 : List UInt8)
    (length : Nat) (core : BridgeCore) (offset : Nat) :
    Option (Except BridgeStatus (BridgeCore × Nat)) :=
  match decodeUtf8Checked utf8 length offset with
  | none => none
  | some (.error st) => some (.error st)
  | some (.ok (cp, next)) =>
      match crlfReadChecked mode flags utf8 length cp next with
      | none => none
      | some read =>
          if core.strokeCount < bridgeMaxStrokes then
            match stageChar layout mode flags read.1 with
            | .error st => some (.error st)
            | .ok strokes =>
                match strokes.foldlM BridgeCore.pushChecked core with
                | none => none
                | some core => some (.ok (core, read.2))
          else none

/-- The `while (offset < length)` loop; a turn that reads no byte fails
as well. -/
def stageLoopChecked (layout mode : UInt32) (flags : UInt8) (utf8 : List UInt8)
    (length : Nat) (core : BridgeCore) (offset : Nat) : Option (BridgeStatus × BridgeCore) :=
  if offset < length then
    match stageTurnChecked layout mode flags utf8 length core offset with
    | none => none
    | some (.error st) => some (reject core st)
    | some (.ok (core, next)) =>
        if offset < next then stageLoopChecked layout mode flags utf8 length core next
        else none
  else some (.ok, core)
termination_by length - offset

/-- `bridge_core_stage`. -/
def bridgeCoreStageChecked (core : BridgeCore) (owner id layout mode : UInt32) (flags : UInt8)
    (utf8 : Option (List UInt8)) (length : Nat) (nowMs ttlMs : UInt32) :
    Option (BridgeStatus × BridgeCore) :=
  if core.live then some (.errBusy, core)
  else
    let core := terminate core .empty
    if length = 0 ∨ length > bridgeMaxInputBytes then some (reject core .errLimit)
    else
      match utf8 with
      | none => some (reject core .errArgument)
      | some input =>
          if owner = 0 ∨ id = 0 ∨ (layout ≠ bridgeLayoutUs ∧ layout ≠ bridgeLayoutDe) ∨
              (mode ≠ bridgeModePassword ∧ mode ≠ bridgeModeText) ∨
              ttlMs = 0 ∨ ttlMs > bridgeMaxTtlMs then
            some (reject core .errArgument)
          else if flags &&& ~~~(bridgeFlagAllowLf ||| bridgeFlagAllowTab) ≠ 0 ∨
              (mode = bridgeModePassword ∧ flags ≠ 0) then
            some (reject core .errPolicy)
          else if core.replay.contains (owner, id) then some (reject core .errReplay)
          else if core.replay.length = bridgeReplayCapacity then some (reject core .errLimit)
          else
            let core :=
              { core with
                owner := owner
                id := id
                layout := layout
                mode := mode
                flags := flags
                stagedAtMs := nowMs
                ttlMs := ttlMs }
            match stageLoopChecked layout mode flags input length core 0 with
            | none => none
            | some (.ok, core) =>
                some (.ok, { core with
                  replay := core.replay ++ [(owner, id)]
                  state := .staged })
            | some (st, core) => some (st, core)

-- ======================================================== the plain results

variable {input : List UInt8} {length : Nat}

theorem getElem?_eq_getD {i : Nat} (h : i < input.length) : input[i]? = some (input.getD i 0) := by
  rw [List.getD_eq_getElem?_getD, List.getElem?_eq_getElem h]
  rfl

/-- The continuation loop stays below the bytes that were found to be there. -/
theorem decodeContinuation_checked {n : Nat} : ∀ {offset cp : Nat}, offset + n ≤ input.length →
    decodeContinuationChecked input n offset cp = some (decodeContinuation input n offset cp) := by
  induction n with
  | zero => exact fun _ => rfl
  | succ n ih =>
      intro offset cp h
      unfold decodeContinuationChecked decodeContinuation
      rw [getElem?_eq_getD (by omega)]
      dsimp only
      split
      · rfl
      · exact ih (by omega)

theorem decodeTail_checked (hbuf : length ≤ input.length) {offset cp n m : Nat}
    (hle : offset ≤ length) :
    decodeTailChecked input length offset cp n m
      = some (decodeTail input length offset cp n m) := by
  unfold decodeTailChecked decodeTail
  by_cases hshort : length - offset < n
  · rw [if_pos hshort, if_pos hshort]
  · rw [if_neg hshort, if_neg hshort, decodeContinuation_checked (by omega)]
    cases decodeContinuation input n offset cp with
    | error st => rfl
    | ok r =>
        dsimp only
        split <;> rfl

/-- Decoding reads below the length. -/
theorem decodeUtf8_checked (hbuf : length ≤ input.length) {offset : Nat} (hlt : offset < length) :
    decodeUtf8Checked input length offset = some (decodeUtf8 input length offset) := by
  unfold decodeUtf8Checked decodeUtf8
  rw [getElem?_eq_getD (by omega)]
  dsimp only
  rw [decodeTail_checked hbuf hlt, decodeTail_checked hbuf hlt, decodeTail_checked hbuf hlt]
  split_ifs <;> rfl

/-- So does the look-ahead. -/
theorem crlfRead_checked (hbuf : length ≤ input.length) (mode : UInt32) (flags : UInt8)
    (cp offset : Nat) :
    crlfReadChecked mode flags input length cp offset
      = some (crlfRead mode flags input length cp offset) := by
  unfold crlfReadChecked crlfRead
  by_cases hahead : cp = 13 ∧ mode = bridgeModeText ∧ flags &&& bridgeFlagAllowLf ≠ 0 ∧
      offset < length
  · obtain ⟨hcp, hmode, hflag, hlt⟩ := hahead
    rw [if_pos ⟨hcp, hmode, hflag, hlt⟩, getElem?_eq_getD (by omega)]
    dsimp only
    by_cases hlf : input.getD offset 0 = 10
    · rw [if_pos hlf, if_pos ⟨hcp, hmode, hflag, hlt, hlf⟩]
    · rw [if_neg hlf, if_neg fun h => hlf h.2.2.2.2]
  · rw [if_neg hahead, if_neg fun h => hahead ⟨h.1, h.2.1, h.2.2.1, h.2.2.2.1⟩]

/-- Pushing is in bounds where there is room for all that is pushed. -/
theorem foldlM_pushChecked {strokes : List BridgeStroke} : ∀ {core : BridgeCore},
    core.strokeCount + strokes.length ≤ bridgeMaxStrokes →
    strokes.foldlM BridgeCore.pushChecked core = some (strokes.foldl BridgeCore.push core) := by
  induction strokes with
  | nil => exact fun _ => rfl
  | cons stroke strokes ih =>
      intro core h
      rw [List.length_cons] at h
      have hslot : core.pushChecked stroke = some (core.push stroke) := if_pos (by omega)
      rw [List.foldlM_cons, hslot]
      have hcount : (core.push stroke).strokeCount = core.strokeCount + 1 := rfl
      exact ih (by omega)

-- =============================================================== the turns

/-- One turn of the loop. -/
def stageTurn (layout mode : UInt32) (flags : UInt8) (utf8 : List UInt8) (length : Nat)
    (core : BridgeCore) (offset : Nat) : Except BridgeStatus (BridgeCore × Nat) :=
  match decodeUtf8 utf8 length offset with
  | .error st => .error st
  | .ok (cp, next) =>
      let read := crlfRead mode flags utf8 length cp next
      match stageChar layout mode flags read.1 with
      | .error st => .error st
      | .ok strokes => .ok (strokes.foldl BridgeCore.push core, read.2)

/-- The core and the offset at the head of a turn. -/
inductive StageHead (layout mode : UInt32) (flags : UInt8) (utf8 : List UInt8) (length : Nat)
    (start : BridgeCore) : BridgeCore → Nat → Prop
  | start : StageHead layout mode flags utf8 length start start 0
  | turn {core core' : BridgeCore} {offset offset' : Nat}
      (h : StageHead layout mode flags utf8 length start core offset) (hlt : offset < length)
      (hturn : stageTurn layout mode flags utf8 length core offset = .ok (core', offset')) :
      StageHead layout mode flags utf8 length start core' offset'

variable {layout mode : UInt32} {flags : UInt8} {core : BridgeCore} {offset : Nat}

/-- The loop is its turns. -/
theorem stageLoop_turn (hlt : offset < length) :
    stageLoop layout mode flags input length core offset
      = match stageTurn layout mode flags input length core offset with
        | .error st => reject core st
        | .ok (core', offset') => stageLoop layout mode flags input length core' offset' := by
  rw [stageLoop, if_pos hlt]
  unfold stageTurn
  split
  next st hd => rw [hd]
  next cp next hd =>
    rw [hd]
    dsimp only
    cases stageChar layout mode flags (crlfRead mode flags input length cp next).1 <;> rfl

/-- A turn reads at least one byte, and writes at most two strokes. -/
theorem stageTurn_ok (hlt : offset < length) {core' : BridgeCore} {offset' : Nat}
    (h : stageTurn layout mode flags input length core offset = .ok (core', offset')) :
    offset < offset' ∧ offset' ≤ length ∧ core'.strokeCount ≤ core.strokeCount + 2 := by
  unfold stageTurn at h
  cases hdecode : decodeUtf8 input length offset with
  | error st =>
      rw [hdecode] at h
      cases h
  | ok r =>
      obtain ⟨cp, next⟩ := r
      rw [hdecode] at h
      dsimp only at h
      cases hchar : stageChar layout mode flags (crlfRead mode flags input length cp next).1 with
      | error st =>
          rw [hchar] at h
          cases h
      | ok strokes =>
          rw [hchar] at h
          cases h
          have hbyte := decodeUtf8_offset_lt hdecode
          have hread := le_crlfRead mode flags input length cp next
          have htwo := stageChar_length hchar
          rw [foldl_push_count]
          exact ⟨by omega, crlfRead_le (decodeUtf8_offset_le hlt hdecode), by omega⟩

/-- At the head of a turn there are at most two strokes for each byte
that was read. -/
theorem StageHead.count {start : BridgeCore} (hstart : start.strokeCount = 0)
    (h : StageHead layout mode flags input length start core offset) :
    core.strokeCount ≤ 2 * offset ∧ offset ≤ length := by
  induction h with
  | start => exact ⟨by omega, Nat.zero_le length⟩
  | turn _ hlt hturn ih =>
      obtain ⟨hbyte, hle, htwo⟩ := stageTurn_ok hlt hturn
      exact ⟨by omega, hle⟩

/-- A turn stays within the input and the stroke array. -/
theorem stageTurn_checked (hbuf : length ≤ input.length) (hmax : length ≤ bridgeMaxInputBytes)
    (hlt : offset < length) (hcount : core.strokeCount ≤ 2 * offset) :
    stageTurnChecked layout mode flags input length core offset
      = some (stageTurn layout mode flags input length core offset) := by
  have hslot : core.strokeCount + 2 ≤ bridgeMaxStrokes := by
    unfold bridgeMaxStrokes
    omega
  unfold stageTurnChecked stageTurn
  rw [decodeUtf8_checked hbuf hlt]
  cases decodeUtf8 input length offset with
  | error st => rfl
  | ok r =>
      obtain ⟨cp, next⟩ := r
      dsimp only
      rw [crlfRead_checked hbuf]
      dsimp only
      rw [if_pos (by omega)]
      cases hchar : stageChar layout mode flags (crlfRead mode flags input length cp next).1 with
      | error st => rfl
      | ok strokes =>
          have htwo := stageChar_length hchar
          dsimp only
          rw [foldlM_pushChecked (by omega)]

/-- So does the loop. -/
theorem stageLoop_checked (hbuf : length ≤ input.length) (hmax : length ≤ bridgeMaxInputBytes)
    (hcount : core.strokeCount ≤ 2 * offset) :
    stageLoopChecked layout mode flags input length core offset
      = some (stageLoop layout mode flags input length core offset) := by
  obtain ⟨n, hn⟩ : ∃ n, length - offset ≤ n := ⟨_, Nat.le_refl _⟩
  induction n generalizing core offset with
  | zero =>
      have hend : ¬offset < length := by omega
      rw [stageLoopChecked, if_neg hend, stageLoop, if_neg hend]
  | succ n ih =>
      by_cases hlt : offset < length
      · rw [stageLoopChecked, if_pos hlt, stageLoop_turn hlt,
          stageTurn_checked hbuf hmax hlt hcount]
        cases hturn : stageTurn layout mode flags input length core offset with
        | error st => rfl
        | ok r =>
            obtain ⟨core', offset'⟩ := r
            obtain ⟨hbyte, -, htwo⟩ := stageTurn_ok hlt hturn
            dsimp only
            rw [if_pos hbyte]
            exact ih (by omega) (by omega)
      · rw [stageLoopChecked, if_neg hlt, stageLoop, if_neg hlt]

/-- And the stage, where an input that is short enough is all there. -/
theorem bridgeCoreStage_checked (core : BridgeCore) (owner id layout mode : UInt32)
    (flags : UInt8) (hbuf : length ≤ bridgeMaxInputBytes → length ≤ input.length)
    (nowMs ttlMs : UInt32) :
    bridgeCoreStageChecked core owner id layout mode flags (some input) length nowMs ttlMs
      = some (bridgeCoreStage core owner id layout mode flags (some input) length nowMs ttlMs) := by
  unfold bridgeCoreStageChecked bridgeCoreStage
  simp only [List.contains_iff_mem]
  split
  · rfl
  split
  · rfl
  next hlimit =>
    have hmax : length ≤ bridgeMaxInputBytes := by omega
    split
    · rfl
    split
    · rfl
    split
    · rfl
    split
    · rfl
    rw [stageLoop_checked (hbuf hmax) hmax (Nat.zero_le _)]
    generalize stageLoop layout mode flags input length _ 0 = r
    obtain ⟨st, core'⟩ := r
    cases st <;> rfl

end PicoBridge
