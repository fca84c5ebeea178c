/-
`firmware/core/bridge_core.c`: the job state machine, as the code
computes it.

# What is modelled how

- `bridge_core_t` is `BridgeCore`, passed and returned by value. The
  replay array with its count is the list of its used entries; the
  stroke array is a function of the index (`wipe` makes it constantly
  zero), so an index at or above `BRIDGE_MAX_STROKES` is simply never
  written.
- The C enums `bridge_layout_t` and `bridge_mode_t` travel as the
  `UInt32` the caller passes, because the code checks them against their
  two defined values. Statuses and states are inductive types.
- The input buffer is a list read through its index, next to the
  separate `length` argument of the C signature; `utf8 = none` is the
  null pointer. Null `core` and `stroke` pointers are arguments of
  `coreCall` (Core/Job.lean), not of the operations here.
- An operation that fails after touching the core goes through
  `reject`, which wipes the job region: the half-built stroke list of a
  refused input is never observable.
-/
import PicoBridge.Lib.Machine

namespace PicoBridge

-- =========================================================== constants

def bridgeMaxInputBytes : Nat := 1024
def bridgeMaxStrokes : Nat := 2 * bridgeMaxInputBytes
def bridgeMaxTtlMs : UInt32 := 15000
def bridgeReplayCapacity : Nat := 64
def bridgeFlagAllowLf : UInt8 := 0x01
def bridgeFlagAllowTab : UInt8 := 0x02
def bridgeModLeftShift : UInt8 := 0x02
def bridgeModRightAlt : UInt8 := 0x40

def bridgeLayoutUs : UInt32 := 1
def bridgeLayoutDe : UInt32 := 2
def bridgeModePassword : UInt32 := 1
def bridgeModeText : UInt32 := 2

/-- `bridge_status_t`, in the order of the enum. -/
inductive BridgeStatus
  | ok
  | done
  | errArgument
  | errState
  | errBusy
  | errLimit
  | errUtf8
  | errUnsupported
  | errPolicy
  | errOwner
  | errId
  | errExpired
  | errReplay
  deriving DecidableEq, Repr

/-- `(uint8_t)status`: the byte a receipt carries. -/
def BridgeStatus.toByte : BridgeStatus → UInt8
  | .ok => 0
  | .done => 1
  | .errArgument => 2
  | .errState => 3
  | .errBusy => 4
  | .errLimit => 5
  | .errUtf8 => 6
  | .errUnsupported => 7
  | .errPolicy => 8
  | .errOwner => 9
  | .errId => 10
  | .errExpired => 11
  | .errReplay => 12

/-- `bridge_state_t`. -/
inductive BridgeState
  | empty
  | staged
  | executing
  | completed
  | cancelled
  | expired
  | rejected
  deriving DecidableEq, Repr

/-- `bridge_stroke_t`. -/
structure BridgeStroke where
  modifier : UInt8
  usage : UInt8
  deriving DecidableEq, Repr

/-- `bridge_core_t`. -/
structure BridgeCore where
  replay : List (UInt32 × UInt32)
  state : BridgeState
  owner : UInt32
  id : UInt32
  stagedAtMs : UInt32
  ttlMs : UInt32
  layout : UInt32
  mode : UInt32
  flags : UInt8
  strokeCount : Nat
  cursor : Nat
  strokes : Nat → BridgeStroke

/-- The wiped stroke. -/
def zeroStroke : BridgeStroke := ⟨0, 0⟩

-- ================================================= wiping and rejection

/-- `terminate`: everything from `state` on is wiped, the replay ledger
stays. -/
def terminate (core : BridgeCore) (state : BridgeState) : BridgeCore where
  replay := core.replay
  state := state
  owner := 0
  id := 0
  stagedAtMs := 0
  ttlMs := 0
  layout := 0
  mode := 0
  flags := 0
  strokeCount := 0
  cursor := 0
  strokes := fun _ => zeroStroke

/-- `reject`. -/
def reject (core : BridgeCore) (status : BridgeStatus) : BridgeStatus × BridgeCore :=
  (status, terminate core .rejected)

@[simp] theorem terminate_replay (core : BridgeCore) (st : BridgeState) :
    (terminate core st).replay = core.replay := rfl

@[simp] theorem terminate_state (core : BridgeCore) (st : BridgeState) :
    (terminate core st).state = st := rfl

-- ================================================================= UTF-8

/-- The continuation loop of `decode_utf8`: `n` bytes from `offset`. -/
def decodeContinuation (input : List UInt8) : Nat → Nat → Nat →
    Except BridgeStatus (Nat × Nat)
  | 0, offset, cp => .ok (cp, offset)
  | n + 1, offset, cp =>
      let byte := (input.getD offset 0).toNat
      if byte &&& 0xc0 ≠ 0x80 then .error .errUtf8
      else decodeContinuation input n (offset + 1) ((cp <<< 6) ||| (byte &&& 0x3f))

/-- `decode_utf8` past the lead byte: length check, continuation bytes,
range check. -/
def decodeTail (input : List UInt8) (length offset cp continuation minimum : Nat) :
    Except BridgeStatus (Nat × Nat) :=
  if length - offset < continuation then .error .errUtf8
  else
    match decodeContinuation input continuation offset cp with
    | .error st => .error st
    | .ok (cp, offset) =>
        if cp < minimum ∨ cp > 0x10ffff ∨ (0xd800 ≤ cp ∧ cp ≤ 0xdfff) then
          .error .errUtf8
        else .ok (cp, offset)

/-- `decode_utf8`: the code point at `offset` and the offset after it. -/
def decodeUtf8 (input : List UInt8) (length offset : Nat) :
    Except BridgeStatus (Nat × Nat) :=
  let lead := (input.getD offset 0).toNat
  if lead < 0x80 then .ok (lead, offset + 1)
  else if 0xc2 ≤ lead ∧ lead ≤ 0xdf then
    decodeTail input length (offset + 1) (lead &&& 0x1f) 1 0x80
  else if 0xe0 ≤ lead ∧ lead ≤ 0xef then
    decodeTail input length (offset + 1) (lead &&& 0x0f) 2 0x800
  else if 0xf0 ≤ lead ∧ lead ≤ 0xf4 then
    decodeTail input length (offset + 1) (lead &&& 0x07) 3 0x10000
  else .error .errUtf8

theorem decodeContinuation_offset {input : List UInt8} {n : Nat} :
    ∀ {offset cp cp' offset' : Nat},
      decodeContinuation input n offset cp = .ok (cp', offset') →
      offset' = offset + n := by
  induction n with
  | zero =>
      intro offset cp cp' offset' h
      simp only [decodeContinuation, Except.ok.injEq, Prod.mk.injEq] at h
      omega
  | succ n ih =>
      intro offset cp cp' offset' h
      simp only [decodeContinuation] at h
      split at h
      · cases h
      · have := ih h
        omega

theorem decodeTail_offset {input : List UInt8} {length offset cp n m cp' offset' : Nat}
    (h : decodeTail input length offset cp n m = .ok (cp', offset')) :
    offset' = offset + n := by
  simp only [decodeTail] at h
  split at h
  · cases h
  · split at h
    · cases h
    next c o hc =>
      split at h
      · cases h
      · simp only [Except.ok.injEq, Prod.mk.injEq] at h
        have := decodeContinuation_offset hc
        omega

/-- A decoded code point consumes at least its lead byte. -/
theorem decodeUtf8_offset_lt {input : List UInt8} {length offset cp offset' : Nat}
    (h : decodeUtf8 input length offset = .ok (cp, offset')) : offset < offset' := by
  simp only [decodeUtf8] at h
  split at h
  · simp only [Except.ok.injEq, Prod.mk.injEq] at h
    omega
  · split at h
    · have := decodeTail_offset h
      omega
    · split at h
      · have := decodeTail_offset h
        omega
      · split at h
        · have := decodeTail_offset h
          omega
        · cases h

-- =============================================================== keymaps

/-- `plain[]` of `map_ascii`: the 21 unshifted symbols, as character
codes. -/
def plain : List Nat :=
  [0x60, 0x31, 0x32, 0x33, 0x34, 0x35, 0x36, 0x37, 0x38, 0x39, 0x30,
   0x2d, 0x3d, 0x5b, 0x5d, 0x5c, 0x3b, 0x27, 0x2c, 0x2e, 0x2f]

/-- `shifted[]` of `map_ascii`: the same keys with shift. -/
def shifted : List Nat :=
  [0x7e, 0x21, 0x40, 0x23, 0x24, 0x25, 0x5e, 0x26, 0x2a, 0x28, 0x29,
   0x5f, 0x2b, 0x7b, 0x7d, 0x7c, 0x3a, 0x22, 0x3c, 0x3e, 0x3f]

/-- `usages[]` of `map_ascii`. -/
def usages : List UInt8 :=
  [53, 30, 31, 32, 33, 34, 35, 36, 37, 38, 39, 45, 46, 47, 48, 49, 51, 52, 54, 55, 56]

/-- The symbol loop of `map_ascii`: the first key whose plain or shifted
symbol is `cp`. -/
def mapSymbol (cp : Nat) : List (Nat × Nat × UInt8) → Except BridgeStatus BridgeStroke
  | [] => .error .errUnsupported
  | (p, s, usage) :: rest =>
      if cp = p ∨ cp = s then
        .ok ⟨if cp = s then bridgeModLeftShift else 0, usage⟩
      else mapSymbol cp rest

/-- `map_ascii`. -/
def mapAscii (cp : Nat) : Except BridgeStatus BridgeStroke :=
  if 'a'.toNat ≤ cp ∧ cp ≤ 'z'.toNat then .ok ⟨0, UInt8.ofNat (cp - 'a'.toNat + 4)⟩
  else if 'A'.toNat ≤ cp ∧ cp ≤ 'Z'.toNat then
    .ok ⟨bridgeModLeftShift, UInt8.ofNat (cp - 'A'.toNat + 4)⟩
  else if cp = ' '.toNat then .ok ⟨0, 44⟩
  else mapSymbol cp (plain.zip (shifted.zip usages))

/-- `symbols[]` zipped with `keys[]` of `map_de`: 0x21 to 0x2f, then
0x3a to 0x40, 0x5b to 0x60 and 0x7b to 0x7e. -/
def deSymbols : List (Nat × BridgeStroke) :=
  [(0x21, ⟨2, 30⟩), (0x22, ⟨2, 31⟩), (0x23, ⟨0, 50⟩), (0x24, ⟨2, 33⟩), (0x25, ⟨2, 34⟩),
   (0x26, ⟨2, 35⟩), (0x27, ⟨2, 50⟩), (0x28, ⟨2, 37⟩), (0x29, ⟨2, 38⟩),
   (0x2a, ⟨2, 48⟩), (0x2b, ⟨0, 48⟩), (0x2c, ⟨0, 54⟩), (0x2d, ⟨0, 56⟩), (0x2e, ⟨0, 55⟩),
   (0x2f, ⟨2, 36⟩), (0x3a, ⟨2, 55⟩), (0x3b, ⟨2, 54⟩),
   (0x3c, ⟨0, 100⟩), (0x3d, ⟨2, 39⟩), (0x3e, ⟨2, 100⟩), (0x3f, ⟨2, 45⟩), (0x40, ⟨64, 20⟩),
   (0x5b, ⟨64, 37⟩), (0x5c, ⟨64, 45⟩), (0x5d, ⟨64, 38⟩),
   (0x5e, ⟨0, 53⟩), (0x5f, ⟨2, 56⟩), (0x60, ⟨2, 46⟩), (0x7b, ⟨64, 36⟩), (0x7c, ⟨64, 100⟩),
   (0x7d, ⟨64, 39⟩), (0x7e, ⟨64, 48⟩)]

/-- `unicode[]` of `map_de`. -/
def deUnicode : List (Nat × BridgeStroke) :=
  [(0xe4, ⟨0, 52⟩), (0xf6, ⟨0, 51⟩), (0xfc, ⟨0, 47⟩),
   (0xc4, ⟨2, 52⟩), (0xd6, ⟨2, 51⟩), (0xdc, ⟨2, 47⟩),
   (0xdf, ⟨0, 45⟩), (0x20ac, ⟨64, 8⟩), (0xb4, ⟨0, 46⟩)]

/-- `map_de`. -/
def mapDe (cp : Nat) : Except BridgeStatus BridgeStroke :=
  match deSymbols.lookup cp with
  | some stroke => .ok stroke
  | none =>
      match deUnicode.lookup cp with
      | some stroke => .ok stroke
      | none =>
          mapAscii
            (if cp = 'y'.toNat then 'z'.toNat
             else if cp = 'Y'.toNat then 'Z'.toNat
             else if cp = 'z'.toNat then 'y'.toNat
             else if cp = 'Z'.toNat then 'Y'.toNat
             else cp)

-- ================================================================= stage

/-- The DE dead keys, which the stage loop follows with a space. -/
def isDeDead (cp : Nat) : Bool :=
  cp == 0x5e || cp == 0x60 || cp == 0x7e || cp == 0xb4

/-- The strokes one character contributes in the stage loop. A control
character writes only `usage` of a slot that is still wiped, so its
modifier is 0. -/
def stageChar (layout mode : UInt32) (flags : UInt8) (cp : Nat) :
    Except BridgeStatus (List BridgeStroke) :=
  if cp < 32 ∨ cp = 127 then
    if mode = bridgeModeText ∧
        ((cp = 10 ∧ flags &&& bridgeFlagAllowLf ≠ 0) ∨
          (cp = 9 ∧ flags &&& bridgeFlagAllowTab ≠ 0)) then
      .ok [⟨0, if cp = 10 then 0x28 else 0x2b⟩]
    else .error .errPolicy
  else
    match if layout = bridgeLayoutDe then mapDe cp else mapAscii cp with
    | .error st => .error st
    | .ok stroke =>
        if layout = bridgeLayoutDe ∧ isDeDead cp then .ok [stroke, ⟨0, 44⟩]
        else .ok [stroke]

/-- `core->strokes[core->stroke_count++] = stroke`. -/
def BridgeCore.push (core : BridgeCore) (stroke : BridgeStroke) : BridgeCore :=
  { core with
    strokeCount := core.strokeCount + 1
    strokes := Function.update core.strokes core.strokeCount stroke }

/-- The CRLF look-ahead: in TEXT mode with ALLOW_LF a carriage return
directly before a line feed is read as that line feed. -/
def crlfRead (mode : UInt32) (flags : UInt8) (utf8 : List UInt8)
    (length cp offset : Nat) : Nat × Nat :=
  if cp = 13 ∧ mode = bridgeModeText ∧ flags &&& bridgeFlagAllowLf ≠ 0 ∧
      offset < length ∧ utf8.getD offset 0 = 10 then (10, offset + 1)
  else (cp, offset)

theorem le_crlfRead (mode : UInt32) (flags : UInt8) (utf8 : List UInt8)
    (length cp offset : Nat) :
    offset ≤ (crlfRead mode flags utf8 length cp offset).2 := by
  unfold crlfRead
  split
  · exact Nat.le_succ _
  · exact Nat.le_refl _

/-- The `while (offset < length)` loop of `bridge_core_stage`. -/
def stageLoop (layout mode : UInt32) (flags : UInt8) (utf8 : List UInt8)
    (length : Nat) (core : BridgeCore) (offset : Nat) : BridgeStatus × BridgeCore :=
  if offset < length then
    match _h : decodeUtf8 utf8 length offset with
    | .error st => reject core st
    | .ok (cp, next) =>
        let read := crlfRead mode flags utf8 length cp next
        match stageChar layout mode flags read.1 with
        | .error st => reject core st
        | .ok strokes =>
            stageLoop layout mode flags utf8 length
              (strokes.foldl BridgeCore.push core) read.2
  else (.ok, core)
termination_by length - offset
decreasing_by
  have := decodeUtf8_offset_lt _h
  have := le_crlfRead mode flags utf8 length cp next
  omega

/-- A job that is staged or being typed. -/
def BridgeCore.live (core : BridgeCore) : Prop :=
  core.state = .staged ∨ core.state = .executing

instance (core : BridgeCore) : Decidable core.live :=
  inferInstanceAs (Decidable (_ ∨ _))

/-- `bridge_core_stage`. -/
def bridgeCoreStage (core : BridgeCore) (owner id layout mode : UInt32) (flags : UInt8)
    (utf8 : Option (List UInt8)) (length : Nat) (nowMs ttlMs : UInt32) :
    BridgeStatus × BridgeCore :=
  if core.live then (.errBusy, core)
  else
    let core := terminate core .empty
    if length = 0 ∨ length > bridgeMaxInputBytes then reject core .errLimit
    else
      match utf8 with
      | none => reject core .errArgument
      | some input =>
          if owner = 0 ∨ id = 0 ∨ (layout ≠ bridgeLayoutUs ∧ layout ≠ bridgeLayoutDe) ∨
              (mode ≠ bridgeModePassword ∧ mode ≠ bridgeModeText) ∨
              ttlMs = 0 ∨ ttlMs > bridgeMaxTtlMs then
            reject core .errArgument
          else if flags &&& ~~~(bridgeFlagAllowLf ||| bridgeFlagAllowTab) ≠ 0 ∨
              (mode = bridgeModePassword ∧ flags ≠ 0) then
            reject core .errPolicy
          else if (owner, id) ∈ core.replay then reject core .errReplay
          else if core.replay.length = bridgeReplayCapacity then reject core .errLimit
          else
            let core :=
              { core with
                owner := owner
                id := id
                layout := layout
                mode := mode
                flags := flags
                stagedAtMs := nowMs
                ttlMs := ttlMs }
            match stageLoop layout mode flags input length core 0 with
            | (.ok, core) =>
                (.ok, { core with
                  replay := core.replay ++ [(owner, id)]
                  state := .staged })
            | (st, core) => (st, core)

-- ==================================================== the other operations

/-- `bridge_core_init`: the whole structure wiped. -/
def bridgeCoreInit : BridgeCore where
  replay := []
  state := .empty
  owner := 0
  id := 0
  stagedAtMs := 0
  ttlMs := 0
  layout := 0
  mode := 0
  flags := 0
  strokeCount := 0
  cursor := 0
  strokes := fun _ => zeroStroke

/-- `bridge_core_abort`. -/
def bridgeCoreAbort (core : BridgeCore) : BridgeCore := terminate core .cancelled

/-- `bridge_core_cancel`. -/
def bridgeCoreCancel (core : BridgeCore) (owner id : UInt32) : BridgeStatus × BridgeCore :=
  if ¬core.live then (.errState, core)
  else if owner ≠ core.owner then (.errOwner, core)
  else if id ≠ core.id then (.errId, core)
  else (.ok, terminate core .cancelled)

/-- `(uint32_t)(now_ms - core->staged_at_ms) >= core->ttl_ms`. -/
def BridgeCore.elapsed (core : BridgeCore) (nowMs : UInt32) : Prop :=
  nowMs - core.stagedAtMs ≥ core.ttlMs

instance (core : BridgeCore) (nowMs : UInt32) : Decidable (core.elapsed nowMs) :=
  inferInstanceAs (Decidable (_ ≥ _))

/-- `bridge_core_tick`. -/
def bridgeCoreTick (core : BridgeCore) (nowMs : UInt32) : BridgeStatus × BridgeCore :=
  if core.state = .staged ∧ core.elapsed nowMs then
    (.errExpired, terminate core .expired)
  else (.ok, core)

/-- `bridge_core_confirm`. -/
def bridgeCoreConfirm (core : BridgeCore) (owner id nowMs : UInt32) :
    BridgeStatus × BridgeCore :=
  if core.state ≠ .staged then (.errState, core)
  else if owner ≠ core.owner then (.errOwner, core)
  else if id ≠ core.id then (.errId, core)
  else
    match bridgeCoreTick core nowMs with
    | (.errExpired, core) => (.errExpired, core)
    | (_, core) => (.ok, { core with state := .executing })

/-- `bridge_core_next`, with the stroke it leaves in `*stroke` (wiped on
entry). -/
def bridgeCoreNext (core : BridgeCore) (nowMs : UInt32) :
    BridgeStatus × BridgeStroke × BridgeCore :=
  match bridgeCoreTick core nowMs with
  | (.errExpired, core) => (.errExpired, zeroStroke, core)
  | (_, core) =>
      if core.state ≠ .executing then (.errState, zeroStroke, core)
      else if core.cursor = core.strokeCount then
        (.done, zeroStroke, terminate core .completed)
      else
        (.ok, core.strokes core.cursor,
          { core with
            strokes := Function.update core.strokes core.cursor zeroStroke
            cursor := core.cursor + 1 })

end PicoBridge
