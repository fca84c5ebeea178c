/-
Failed operations of the core.

A refusal that comes before the old job is wiped leaves the core as it
is; a stage that fails behind it leaves the ledger, and a job region of
zeros. So a failed stage has cost the pair nothing: whatever a fresh core
accepts under it is accepted still, unless the ledger has it or is full.
-/
import PicoBridge.Core.Typing

namespace PicoBridge

-- ================================================================= staging

theorem Admissible.of_ledger {core core' : BridgeCore} {owner id layout mode : UInt32}
    {flags : UInt8} {length : Nat} {ttlMs : UInt32}
    (h : Admissible core owner id layout mode flags length ttlMs)
    (hfresh : (owner, id) ∉ core'.replay) (hroom : core'.replay.length ≠ bridgeReplayCapacity) :
    Admissible core' owner id layout mode flags length ttlMs :=
  { h with fresh := hfresh, room := hroom }

/-- Only the ledger of a core without a job decides about a stage. -/
theorem stage_ledger {core : BridgeCore} (hidle : ¬core.live) (owner id layout mode : UInt32)
    (flags : UInt8) (utf8 : Option (List UInt8)) (length : Nat) (nowMs ttlMs : UInt32) :
    (bridgeCoreStage core owner id layout mode flags utf8 length nowMs ttlMs).1 = .ok ↔
      (owner, id) ∉ core.replay ∧ core.replay.length ≠ bridgeReplayCapacity ∧
        (bridgeCoreStage bridgeCoreInit owner id layout mode flags utf8 length nowMs ttlMs).1
          = .ok := by
  rw [stage_ok_iff hidle, @stage_ok_iff bridgeCoreInit (by decide)]
  constructor
  · rintro ⟨hadm, htext⟩
    exact ⟨hadm.fresh, hadm.room, hadm.of_ledger List.not_mem_nil (by decide), htext⟩
  · rintro ⟨hfresh, hroom, hadm, htext⟩
    exact ⟨hadm.of_ledger hfresh hroom, htext⟩

/-- What a stage that failed, other than as busy, leaves behind. -/
structure Rejected (core core' : BridgeCore) : Prop where
  replay : core'.replay = core.replay
  wiped : JobWiped core'
  state : core'.state = .rejected

theorem rejected_terminate (core : BridgeCore) : Rejected core (terminate core .rejected) where
  replay := rfl
  wiped := ⟨rfl, rfl, rfl, rfl, rfl, rfl, rfl, rfl, rfl, fun _ => rfl⟩
  state := rfl

theorem Rejected.idle {core core' : BridgeCore} (h : Rejected core core') : ¬core'.live := by
  rintro (hs | hs)
  · exact absurd (h.state.symm.trans hs) (by decide)
  · exact absurd (h.state.symm.trans hs) (by decide)

/-- A stage leaves the core as it is, or rejected, or staged. -/
theorem stage_failed (core : BridgeCore) (owner id layout mode : UInt32) (flags : UInt8)
    (utf8 : Option (List UInt8)) (length : Nat) (nowMs ttlMs : UInt32) :
    let r := bridgeCoreStage core owner id layout mode flags utf8 length nowMs ttlMs
    (r.1 = .errBusy → r.2 = core) ∧ (r.1 ≠ .ok → r.1 ≠ .errBusy → Rejected core r.2) := by
  intro r
  rcases bridgeCoreStage_cases core owner id layout mode flags utf8 length nowMs ttlMs with
    ⟨-, hr⟩ | ⟨-, st, -, hbusy, hr⟩ | ⟨-, -, -, input, n, f, -, hr, -⟩
  · have hrr : r = (.errBusy, core) := hr
    rw [hrr]
    exact ⟨fun _ => rfl, fun _ hne => absurd rfl hne⟩
  · have hrr : r = (st, terminate core .rejected) := hr
    rw [hrr]
    exact ⟨fun h => absurd h hbusy, fun _ _ => rejected_terminate core⟩
  · have hrr : r = (.ok, stagedCore core owner id layout mode flags nowMs ttlMs n f) := hr
    rw [hrr]
    dsimp only
    exact ⟨fun h => absurd h (by decide), fun h => absurd rfl h⟩

-- ==================================================== the other operations

theorem confirm_failed (core : BridgeCore) (owner id nowMs : UInt32) :
    let r := bridgeCoreConfirm core owner id nowMs
    r.1 = .errState ∨ r.1 = .errOwner ∨ r.1 = .errId → r.2 = core := by
  intro r
  rcases bridgeCoreConfirm_cases core owner id nowMs with
    ⟨st, -, hr⟩ | ⟨-, -, -, -, hr⟩ | ⟨-, -, -, -, hr⟩
  · exact fun _ => congrArg Prod.snd hr
  · rw [show r = _ from hr]
    dsimp only
    exact fun h => absurd h (by decide)
  · rw [show r = _ from hr]
    dsimp only
    exact fun h => absurd h (by decide)

theorem cancel_failed (core : BridgeCore) (owner id : UInt32) :
    let r := bridgeCoreCancel core owner id
    r.1 = .errState ∨ r.1 = .errOwner ∨ r.1 = .errId → r.2 = core := by
  intro r
  rcases bridgeCoreCancel_cases core owner id with ⟨-, -, -, hr⟩ | ⟨-, st, -, hr⟩
  · rw [show r = _ from hr]
    dsimp only
    exact fun h => absurd h (by decide)
  · exact fun _ => congrArg Prod.snd hr

/-- Where no stroke is taken, none is left in the output. -/
theorem next_failed (core : BridgeCore) (nowMs : UInt32) :
    let r := bridgeCoreNext core nowMs
    (r.1 = .errState ∨ r.1 = .errArgument → r.2.2 = core) ∧ (r.1 ≠ .ok → r.2.1 = zeroStroke) := by
  intro r
  rcases bridgeCoreNext_cases core nowMs with
    ⟨-, -, hr⟩ | ⟨-, -, hr⟩ | ⟨-, -, hr⟩ | ⟨-, -, hr⟩
  · rw [show r = _ from hr]
    dsimp only
    exact ⟨fun h => absurd h (by decide), fun _ => rfl⟩
  · rw [show r = _ from hr]
    exact ⟨fun _ => rfl, fun _ => rfl⟩
  · rw [show r = _ from hr]
    dsimp only
    exact ⟨fun h => absurd h (by decide), fun _ => rfl⟩
  · rw [show r = _ from hr]
    dsimp only
    exact ⟨fun h => absurd h (by decide), fun h => absurd rfl h⟩

-- =============================================================== the calls

/-- Failed calls, on a core that is there or is null. A refusal for the
state, the owner, the id or a busy core changes nothing; any other failed
stage leaves the ledger and a wiped, rejected job region, on which a stage
under its pair succeeds where it would on a fresh core, unless the ledger
has the pair or is full; a next that fails leaves a zero stroke. -/
theorem failed_calls_atomic (core : BridgeCore) (coreNull : Bool) :
    (∀ owner id layout mode flags utf8 length nowMs ttlMs,
      let r := coreCall core coreNull
        (.stage owner id layout mode flags utf8 length nowMs ttlMs)
      (r.1.status = some .errBusy → r.2 = core) ∧
      (coreNull = false → r.1.status ≠ some .ok → r.1.status ≠ some .errBusy →
        r.2.replay = core.replay ∧ JobWiped r.2 ∧ r.2.state = .rejected ∧
        ∀ layout' mode' flags' utf8' length' nowMs' ttlMs',
          (bridgeCoreStage r.2 owner id layout' mode' flags' utf8' length' nowMs' ttlMs').1 = .ok ↔
            (owner, id) ∉ core.replay ∧ core.replay.length ≠ bridgeReplayCapacity ∧
              (bridgeCoreStage bridgeCoreInit owner id layout' mode' flags' utf8' length' nowMs'
                ttlMs').1 = .ok)) ∧
    (∀ owner id nowMs,
      let r := coreCall core coreNull (.confirm owner id nowMs)
      r.1.status = some .errState ∨ r.1.status = some .errOwner ∨ r.1.status = some .errId →
        r.2 = core) ∧
    (∀ owner id,
      let r := coreCall core coreNull (.cancel owner id)
      r.1.status = some .errState ∨ r.1.status = some .errOwner ∨ r.1.status = some .errId →
        r.2 = core) ∧
    ∀ nowMs strokeNull,
      let r := coreCall core coreNull (.next nowMs strokeNull)
      (r.1.status = some .errState ∨ r.1.status = some .errArgument → r.2 = core) ∧
      (r.1.status ≠ some .ok → strokeNull = false → r.1.stroke = zeroStroke) := by
  cases coreNull with
  | true =>
      refine ⟨fun _ _ _ _ _ _ _ _ _ => ⟨fun _ => rfl, fun h => by cases h⟩, fun _ _ _ _ => rfl,
        fun _ _ _ => rfl, fun _ _ => ⟨fun _ => rfl, fun _ _ => rfl⟩⟩
  | false =>
      refine ⟨?_, ?_, ?_, ?_⟩
      · intro owner id layout mode flags utf8 length nowMs ttlMs
        obtain ⟨hbusy, hrejected⟩ :=
          stage_failed core owner id layout mode flags utf8 length nowMs ttlMs
        refine ⟨fun h => hbusy (Option.some.inj h), fun _ hok hnot => ?_⟩
        have hleft := hrejected (fun h => hok (congrArg some h)) fun h => hnot (congrArg some h)
        refine ⟨hleft.replay, hleft.wiped, hleft.state, fun layout' mode' flags' utf8' length'
          nowMs' ttlMs' => ?_⟩
        rw [← hleft.replay]
        exact stage_ledger hleft.idle owner id layout' mode' flags' utf8' length' nowMs' ttlMs'
      · intro owner id nowMs r h
        exact confirm_failed core owner id nowMs
          (h.imp Option.some.inj fun h => h.imp Option.some.inj Option.some.inj)
      · intro owner id r h
        exact cancel_failed core owner id
          (h.imp Option.some.inj fun h => h.imp Option.some.inj Option.some.inj)
      · intro nowMs strokeNull
        cases strokeNull with
        | true => exact ⟨fun _ => rfl, fun _ _ => rfl⟩
        | false =>
            obtain ⟨hsame, hzero⟩ := next_failed core nowMs
            exact ⟨fun h => hsame (h.imp Option.some.inj Option.some.inj),
              fun hok _ => hzero fun h => hok (congrArg some h)⟩

end PicoBridge
