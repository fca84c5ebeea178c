/-
The stroke array over every run of core calls: what is left of a secret,
and what is still to be typed.

# Wiping

`SecretsWiped` is the invariant. A core without a job holds zeros only;
a core with a job holds zeros below its cursor and from its stroke count
on. The count stays within the array because a character of the input
takes at least one byte and gives at most two strokes
(`stageLoop_count`).

# What is to be typed

`coreOp_remaining` is the rule for the strokes to come: whatever every
accepted character's strokes have, under the mode and the flags of the
job, the strokes left of a job have in every reachable core.
-/
import PicoBridge.Core.Job

namespace PicoBridge

open Lib (Machine)
open Lib.OneShot (offers ledger_eq)

-- ============================================================= pushing

/-- The slots from the stroke count on are wiped. -/
def BridgeCore.clearBeyond (core : BridgeCore) : Prop :=
  ∀ i, core.strokeCount ≤ i → core.strokes i = zeroStroke

theorem push_clearBeyond {core : BridgeCore} {stroke : BridgeStroke} (h : core.clearBeyond) :
    (core.push stroke).clearBeyond := by
  intro i hi
  simp only [BridgeCore.push] at hi ⊢
  rw [Function.update_of_ne (by omega)]
  exact h i (by omega)

theorem foldl_push_clearBeyond {strokes : List BridgeStroke} :
    ∀ {core : BridgeCore}, core.clearBeyond → (strokes.foldl BridgeCore.push core).clearBeyond := by
  induction strokes with
  | nil => exact fun h => h
  | cons s strokes ih => exact fun h => ih (push_clearBeyond h)

theorem foldl_push_count (strokes : List BridgeStroke) :
    ∀ core : BridgeCore, (strokes.foldl BridgeCore.push core).strokeCount
      = core.strokeCount + strokes.length := by
  induction strokes with
  | nil => exact fun core => rfl
  | cons s strokes ih =>
      intro core
      rw [List.foldl_cons, ih, List.length_cons]
      show core.strokeCount + 1 + _ = _
      omega

/-- Every stroke pushed so far has a property. -/
def BridgeCore.filledWith (P : BridgeStroke → Prop) (core : BridgeCore) : Prop :=
  ∀ i < core.strokeCount, P (core.strokes i)

theorem push_filledWith {P : BridgeStroke → Prop} {core : BridgeCore} {stroke : BridgeStroke}
    (h : core.filledWith P) (hs : P stroke) : (core.push stroke).filledWith P := by
  intro i hi
  simp only [BridgeCore.push] at hi ⊢
  by_cases heq : i = core.strokeCount
  · subst heq
    rwa [Function.update_self]
  · rw [Function.update_of_ne heq]
    exact h i (by omega)

theorem foldl_push_filledWith {P : BridgeStroke → Prop} {strokes : List BridgeStroke} :
    ∀ {core : BridgeCore}, core.filledWith P → (∀ stroke ∈ strokes, P stroke) →
      (strokes.foldl BridgeCore.push core).filledWith P := by
  induction strokes with
  | nil => exact fun h _ => h
  | cons s strokes ih =>
      intro core h hs
      exact ih (push_filledWith h (hs s List.mem_cons_self))
        fun t ht => hs t (List.mem_cons_of_mem _ ht)

/-- A filled core with the cursor at 0 has the property in all it has to
give. -/
theorem BridgeCore.filledWith.remaining {P : BridgeStroke → Prop} {core : BridgeCore}
    (h : core.filledWith P) (hc : core.cursor = 0) : ∀ stroke ∈ core.remaining, P stroke := by
  intro stroke hs
  rw [remaining_of_cursor_zero hc] at hs
  simp only [BridgeCore.strokeList, List.mem_map, List.mem_range] at hs
  obtain ⟨i, hi, rfl⟩ := hs
  exact h i hi

-- ====================================================== the stage loop's count

theorem decodeTail_le {input : List UInt8} {length offset cp n m cp' offset' : Nat}
    (hle : offset ≤ length) (h : decodeTail input length offset cp n m = .ok (cp', offset')) :
    offset' ≤ length := by
  have hoffset := decodeTail_offset h
  unfold decodeTail at h
  split at h
  next => cases h
  next hroom => omega

/-- A decoded code point ends within the input. -/
theorem decodeUtf8_offset_le {input : List UInt8} {length offset cp offset' : Nat}
    (hlt : offset < length) (h : decodeUtf8 input length offset = .ok (cp, offset')) :
    offset' ≤ length := by
  simp only [decodeUtf8] at h
  split at h
  · simp only [Except.ok.injEq, Prod.mk.injEq] at h
    omega
  · split at h
    · exact decodeTail_le hlt h
    · split at h
      · exact decodeTail_le hlt h
      · split at h
        · exact decodeTail_le hlt h
        · cases h

theorem crlfRead_le {mode : UInt32} {flags : UInt8} {utf8 : List UInt8} {length cp offset : Nat}
    (h : offset ≤ length) : (crlfRead mode flags utf8 length cp offset).2 ≤ length := by
  unfold crlfRead
  split
  next hcrlf => exact hcrlf.2.2.2.1
  next => exact h

/-- The stage loop writes at most two strokes for each byte. -/
theorem stageLoop_count {layout mode : UInt32} {flags : UInt8} {utf8 : List UInt8}
    {length : Nat} {core core' : BridgeCore} {offset : Nat} (hle : offset ≤ length)
    (hcount : core.strokeCount ≤ 2 * offset)
    (h : stageLoop layout mode flags utf8 length core offset = (.ok, core')) :
    core'.strokeCount ≤ 2 * length := by
  fun_induction stageLoop layout mode flags utf8 length core offset with
  | case1 core offset _ st hd =>
      rw [decodeUtf8_error hd] at h
      cases h
  | case2 core offset _ cp next hd read st hc =>
      rcases stageChar_error hc with rfl | rfl <;> cases h
  | case3 core offset hlt cp next hd read strokes hc ih =>
      have hbyte := decodeUtf8_offset_lt hd
      have hread : next ≤ read.2 := le_crlfRead mode flags utf8 length cp next
      have htwo := stageChar_length hc
      refine ih (crlfRead_le (decodeUtf8_offset_le hlt hd)) ?_ h
      rw [foldl_push_count]
      omega
  | case4 core offset _ =>
      cases h
      omega

-- ================================================================= wiping

/-- Every byte of the job region after the state is zero. -/
structure JobWiped (core : BridgeCore) : Prop where
  owner : core.owner = 0
  id : core.id = 0
  stagedAtMs : core.stagedAtMs = 0
  ttlMs : core.ttlMs = 0
  layout : core.layout = 0
  mode : core.mode = 0
  flags : core.flags = 0
  strokeCount : core.strokeCount = 0
  cursor : core.cursor = 0
  strokes : ∀ i, core.strokes i = zeroStroke

/-- What a job leaves in the stroke array: nothing below its cursor and
nothing from its count on. -/
structure StrokesHeld (core : BridgeCore) : Prop where
  cursor_le : core.cursor ≤ core.strokeCount
  count_le : core.strokeCount ≤ bridgeMaxStrokes
  taken : ∀ i < core.cursor, core.strokes i = zeroStroke
  beyond : core.clearBeyond

/-- The wiping invariant, over the pairs staged so far. -/
structure SecretsWiped (core : BridgeCore) (pairs : List (UInt32 × UInt32)) : Prop where
  idle : ¬core.live → JobWiped core
  staged : core.state = .staged → core.cursor = 0
  held : core.live → StrokesHeld core
  ledger_le : core.replay.length ≤ bridgeReplayCapacity
  ledger_nodup : core.replay.Nodup
  ledger : core.replay = pairs

/-- Its part that one call keeps by itself. -/
structure Contained (core : BridgeCore) : Prop where
  idle : ¬core.live → JobWiped core
  staged : core.state = .staged → core.cursor = 0
  held : core.live → StrokesHeld core
  ledger_le : core.replay.length ≤ bridgeReplayCapacity

theorem contained_init : Contained bridgeCoreInit where
  idle _ := ⟨rfl, rfl, rfl, rfl, rfl, rfl, rfl, rfl, rfl, fun _ => rfl⟩
  staged h := by cases h
  held h := absurd h (by decide)
  ledger_le := Nat.zero_le _

/-- A core that is terminated holds nothing. -/
theorem Contained.terminate {core : BridgeCore} (h : Contained core) {st : BridgeState}
    (hst : st ≠ .staged ∧ st ≠ .executing) : Contained (terminate core st) where
  idle _ := ⟨rfl, rfl, rfl, rfl, rfl, rfl, rfl, rfl, rfl, fun _ => rfl⟩
  staged h := absurd h hst.1
  held h := absurd h (not_or.mpr hst)
  ledger_le := h.ledger_le

theorem contained_stage {core : BridgeCore} (h : Contained core)
    (owner id layout mode : UInt32) (flags : UInt8) (utf8 : Option (List UInt8)) (length : Nat)
    (nowMs ttlMs : UInt32) :
    Contained
      (bridgeCoreStage core owner id layout mode flags utf8 length nowMs ttlMs).2 := by
  rcases bridgeCoreStage_cases core owner id layout mode flags utf8 length nowMs ttlMs with
    ⟨-, hr⟩ | ⟨-, st, -, -, hr⟩ | ⟨-, -, hroom, input, n, f, -, hr, hloop⟩
  · rw [hr]
    exact h
  · rw [hr]
    exact h.terminate (by decide)
  · have hlimit : length ≤ bridgeMaxInputBytes := by
      -- a longer input was refused before the loop
      by_contra hlong
      unfold bridgeCoreStage at hr
      split at hr
      next => cases hr
      next => rw [if_pos (.inr (Nat.not_le.mp hlong))] at hr; cases hr
    have hcount : n ≤ 2 * length := stageLoop_count (Nat.zero_le length) (Nat.zero_le _) hloop
    have hbeyond : BridgeCore.clearBeyond { PicoBridge.terminate core .empty with
        owner := owner, id := id, layout := layout, mode := mode, flags := flags
        stagedAtMs := nowMs, ttlMs := ttlMs, strokeCount := n, strokes := f } :=
      stageLoop_inv (P := BridgeCore.clearBeyond)
        (fun _ _ _ _ hP => foldl_push_clearBeyond hP) (fun _ _ => rfl) hloop
    rw [hr]
    refine ⟨fun hidle => absurd (.inl rfl) hidle, fun _ => rfl, fun _ => ?_, ?_⟩
    · refine ⟨Nat.zero_le n, ?_, fun i hi => absurd hi (Nat.not_lt_zero i), hbeyond⟩
      exact Nat.le_trans hcount (Nat.mul_le_mul_left 2 hlimit)
    · have hle := h.ledger_le
      show (core.replay ++ [(owner, id)]).length ≤ bridgeReplayCapacity
      rw [List.length_append, List.length_singleton]
      omega

theorem contained_next {core : BridgeCore} (h : Contained core) (nowMs : UInt32) :
    Contained (bridgeCoreNext core nowMs).2.2 := by
  rcases bridgeCoreNext_cases core nowMs with
    ⟨-, -, hr⟩ | ⟨-, -, hr⟩ | ⟨-, -, hr⟩ | ⟨hs, hc, hr⟩
  · rw [hr]
    exact h.terminate (by decide)
  · rw [hr]
    exact h
  · rw [hr]
    exact h.terminate (by decide)
  · rw [hr]
    have hheld := h.held (.inr hs)
    have hlt : core.cursor < core.strokeCount := Nat.lt_of_le_of_ne hheld.cursor_le hc
    refine ⟨fun hidle => absurd (.inr hs) hidle, fun hstaged => ?_, fun _ => ?_, h.ledger_le⟩
    · exact absurd (hs.symm.trans hstaged) (by decide)
    · refine ⟨hlt, hheld.count_le, fun i hi => ?_, fun i hi => ?_⟩
      · show Function.update core.strokes core.cursor zeroStroke i = zeroStroke
        by_cases heq : i = core.cursor
        · rw [heq, Function.update_self]
        · rw [Function.update_of_ne heq]
          exact hheld.taken i (Nat.lt_of_le_of_ne (Nat.le_of_lt_succ hi) heq)
      · show Function.update core.strokes core.cursor zeroStroke i = zeroStroke
        have hi' : core.strokeCount ≤ i := hi
        rw [Function.update_of_ne (by omega)]
        exact hheld.beyond i hi'

/-- Every core call keeps secrets contained. -/
theorem coreOp_contained {core : BridgeCore} (h : Contained core) (call : CoreCall) :
    Contained (coreOp core call).2 := by
  cases call with
  | stage owner id layout mode flags utf8 length nowMs ttlMs =>
      exact contained_stage h owner id layout mode flags utf8 length nowMs ttlMs
  | confirm owner id nowMs =>
      simp only [coreOp]
      rcases bridgeCoreConfirm_cases core owner id nowMs with
        ⟨st, -, hr⟩ | ⟨-, -, -, -, hr⟩ | ⟨hs, -, -, -, hr⟩
      · rw [hr]
        exact h
      · rw [hr]
        exact h.terminate (by decide)
      · rw [hr]
        have hheld := h.held (.inl hs)
        exact ⟨fun hidle => absurd (.inr rfl) hidle, fun hstaged => (by cases hstaged),
          fun _ => ⟨hheld.cursor_le, hheld.count_le, hheld.taken, hheld.beyond⟩, h.ledger_le⟩
  | next nowMs strokeNull =>
      cases strokeNull with
      | true => exact h
      | false => exact contained_next h nowMs
  | tick nowMs =>
      simp only [coreOp]
      rcases bridgeCoreTick_cases core nowMs with ⟨-, -, hr⟩ | ⟨-, hr⟩
      · rw [hr]
        exact h.terminate (by decide)
      · rw [hr]
        exact h
  | cancel owner id =>
      simp only [coreOp]
      rcases bridgeCoreCancel_cases core owner id with ⟨-, -, -, hr⟩ | ⟨-, st, -, hr⟩
      · rw [hr]
        exact h.terminate (by decide)
      · rw [hr]
        exact h
  | abort => exact h.terminate (by decide)

/-- The pairs staged along a run, in order. -/
def stagedPairs (ls : List CoreLabel) : List (UInt32 × UInt32) :=
  (offers ls).map fun job => (job.owner, job.id)

/-- In every state a run of core calls reaches from `bridge_core_init`,
secrets are wiped and the ledger is the pairs staged so far. -/
theorem coreRun_secrets_wiped (calls : List (Bool × CoreCall)) :
    SecretsWiped (coreMachine.final bridgeCoreInit calls)
      (stagedPairs (coreMachine.trace bridgeCoreInit calls)) := by
  have hcontained : Contained (coreMachine.final bridgeCoreInit calls) := by
    refine coreMachine.final_inv (P := Contained) (fun core c h => ?_) contained_init calls
    obtain ⟨coreNull, call⟩ := c
    cases coreNull with
    | true => exact h
    | false => exact coreOp_contained h call
  obtain ⟨b, htrace, hrefines⟩ := coreMachine.trace_of_sim refines_step calls _ _ refines_init
  obtain ⟨hledger, hnodup⟩ := ledger_eq htrace List.nodup_nil
  rw [hrefines.1] at hledger hnodup
  exact ⟨hcontained.idle, hcontained.staged, hcontained.held, hcontained.ledger_le, hnodup,
    hledger⟩

-- ====================================================== what is to be typed

/-- The strokes to come have a property that depends on the job's mode
and flags. -/
def BridgeCore.gives (Q : UInt32 → UInt8 → BridgeStroke → Prop) (core : BridgeCore) : Prop :=
  ∀ stroke ∈ core.remaining, Q core.mode core.flags stroke

variable {Q : UInt32 → UInt8 → BridgeStroke → Prop}

/-- A wiped core has nothing to give. -/
theorem terminate_gives (core : BridgeCore) (st : BridgeState) : (terminate core st).gives Q := by
  intro stroke h
  cases h

/-- A stage that returns OK gives the strokes of its characters. -/
theorem staged_gives {core : BridgeCore} {owner id layout mode : UInt32} {flags : UInt8}
    {input : List UInt8} {length n : Nat} {f : Nat → BridgeStroke} {nowMs ttlMs : UInt32}
    (hQ : ∀ layout mode flags cp strokes, stageChar layout mode flags cp = .ok strokes →
      ∀ stroke ∈ strokes, Q mode flags stroke)
    (hloop : stageLoop layout mode flags input length
        { terminate core .empty with
          owner := owner, id := id, layout := layout, mode := mode
          flags := flags, stagedAtMs := nowMs, ttlMs := ttlMs } 0
      = (.ok, { terminate core .empty with
          owner := owner, id := id, layout := layout, mode := mode
          flags := flags, stagedAtMs := nowMs, ttlMs := ttlMs
          strokeCount := n, strokes := f })) :
    (stagedCore core owner id layout mode flags nowMs ttlMs n f).gives Q := by
  have hfill := stageLoop_inv (P := BridgeCore.filledWith (Q mode flags))
    (fun core cp strokes hc hP => foldl_push_filledWith hP (hQ _ _ _ _ _ hc))
    (fun i hi => absurd hi (Nat.not_lt_zero i)) hloop
  -- the staged core differs from the loop's in its state and ledger only
  have hstaged : (stagedCore core owner id layout mode flags nowMs ttlMs n f).filledWith
      (Q mode flags) := hfill
  exact hstaged.remaining rfl

/-- Every core call keeps it, where every accepted character has it. -/
theorem coreOp_gives
    (hQ : ∀ layout mode flags cp strokes, stageChar layout mode flags cp = .ok strokes →
      ∀ stroke ∈ strokes, Q mode flags stroke)
    {core : BridgeCore} (h : core.gives Q) (call : CoreCall) : (coreOp core call).2.gives Q := by
  cases call with
  | stage owner id layout mode flags utf8 length nowMs ttlMs =>
      simp only [coreOp]
      rcases bridgeCoreStage_cases core owner id layout mode flags utf8 length nowMs
          ttlMs with ⟨-, hr⟩ | ⟨-, st, -, -, hr⟩ | ⟨-, -, -, input, n, f, -, hr, hloop⟩
      · rw [hr]
        exact h
      · rw [hr]
        exact terminate_gives core _
      · rw [hr]
        exact staged_gives hQ hloop
  | confirm owner id nowMs =>
      simp only [coreOp]
      rcases bridgeCoreConfirm_cases core owner id nowMs with
        ⟨st, -, hr⟩ | ⟨-, -, -, -, hr⟩ | ⟨-, -, -, -, hr⟩
      · rw [hr]
        exact h
      · rw [hr]
        exact terminate_gives core _
      · rw [hr]
        exact h
  | next nowMs strokeNull =>
      cases strokeNull with
      | true => exact h
      | false =>
          simp only [coreOp, Bool.false_eq_true, if_false]
          rcases bridgeCoreNext_cases core nowMs with
            ⟨-, -, hr⟩ | ⟨-, -, hr⟩ | ⟨-, -, hr⟩ | ⟨-, hc, hr⟩
          · rw [hr]
            exact terminate_gives core _
          · rw [hr]
            exact h
          · rw [hr]
            exact terminate_gives core _
          · rw [hr]
            intro stroke hs
            refine h stroke ?_
            by_cases hlt : core.cursor < core.strokeCount
            · rw [remaining_advance hlt]
              exact List.mem_cons_of_mem _ hs
            · have : core.strokeCount - (core.cursor + 1) = 0 := by omega
              simp [BridgeCore.remaining, BridgeCore.advance, this] at hs
  | tick nowMs =>
      simp only [coreOp]
      rcases bridgeCoreTick_cases core nowMs with ⟨-, -, hr⟩ | ⟨-, hr⟩
      · rw [hr]
        exact terminate_gives core _
      · rw [hr]
        exact h
  | cancel owner id =>
      simp only [coreOp]
      rcases bridgeCoreCancel_cases core owner id with ⟨-, -, -, hr⟩ | ⟨-, st, -, hr⟩
      · rw [hr]
        exact terminate_gives core _
      · rw [hr]
        exact h
  | abort => exact terminate_gives core _

end PicoBridge
