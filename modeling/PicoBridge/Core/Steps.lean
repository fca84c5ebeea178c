/-
What one core operation can do: an inversion lemma per operation of
Core/Bridge.lean, each listing every outcome with its guards and the
exact resulting core. Later files case on these and never unfold an
operation.

The stage loop is summarised twice: `stageLoop_cases` (it either
rejects or only fills the stroke array) and `stageLoop_inv` (what every
accepted character preserves holds at its end).
-/
import PicoBridge.Core.Bridge

namespace PicoBridge

-- ============================================================ error codes

theorem decodeContinuation_error {input : List UInt8} {n : Nat} {st : BridgeStatus} :
    ∀ {offset cp : Nat}, decodeContinuation input n offset cp = .error st →
      st = .errUtf8 := by
  induction n with
  | zero => intro offset cp h; cases h
  | succ n ih =>
      intro offset cp h
      simp only [decodeContinuation] at h
      split at h
      · cases h; rfl
      · exact ih h

theorem decodeTail_error {input : List UInt8} {length offset cp n m : Nat}
    {st : BridgeStatus} (h : decodeTail input length offset cp n m = .error st) :
    st = .errUtf8 := by
  simp only [decodeTail] at h
  split at h
  · cases h; rfl
  · split at h
    next st' hc => cases h; exact decodeContinuation_error hc
    next c o hc =>
      split at h
      · cases h; rfl
      · cases h

/-- Decoding fails with one status only. -/
theorem decodeUtf8_error {input : List UInt8} {length offset : Nat} {st : BridgeStatus}
    (h : decodeUtf8 input length offset = .error st) : st = .errUtf8 := by
  simp only [decodeUtf8] at h
  split at h
  · cases h
  · split at h
    · exact decodeTail_error h
    · split at h
      · exact decodeTail_error h
      · split at h
        · exact decodeTail_error h
        · cases h; rfl

theorem mapSymbol_error {cp : Nat} {keys : List (Nat × Nat × UInt8)} {st : BridgeStatus}
    (h : mapSymbol cp keys = .error st) : st = .errUnsupported := by
  induction keys with
  | nil => cases h; rfl
  | cons k keys ih =>
      simp only [mapSymbol] at h
      split at h
      · cases h
      · exact ih h

theorem mapAscii_error {cp : Nat} {st : BridgeStatus} (h : mapAscii cp = .error st) :
    st = .errUnsupported := by
  simp only [mapAscii] at h
  split at h
  · cases h
  · split at h
    · cases h
    · split at h
      · cases h
      · exact mapSymbol_error h

theorem mapDe_error {cp : Nat} {st : BridgeStatus} (h : mapDe cp = .error st) :
    st = .errUnsupported := by
  simp only [mapDe] at h
  split at h
  · cases h
  · split at h
    · cases h
    · exact mapAscii_error h

/-- A character is refused as a forbidden control or as off the map. -/
theorem stageChar_error {layout mode : UInt32} {flags : UInt8} {cp : Nat}
    {st : BridgeStatus} (h : stageChar layout mode flags cp = .error st) :
    st = .errPolicy ∨ st = .errUnsupported := by
  simp only [stageChar] at h
  split at h
  · split at h
    · cases h
    · cases h; exact .inl rfl
  · split at h
    next st' hmap =>
      cases h
      split at hmap
      · exact .inr (mapDe_error hmap)
      · exact .inr (mapAscii_error hmap)
    next => split at h <;> cases h

-- =============================================================== the keys

/-- A stroke that presses a key: usage 0 is no key. -/
def BridgeStroke.typable (stroke : BridgeStroke) : Prop := stroke.usage ≠ 0

instance (stroke : BridgeStroke) : Decidable stroke.typable :=
  inferInstanceAs (Decidable (_ ≠ _))

/-- A key of the report descriptor's range, under no modifier, left shift
or right alt. -/
def BridgeStroke.inReport (stroke : BridgeStroke) : Prop :=
  1 ≤ stroke.usage ∧ stroke.usage ≤ 0x65 ∧
    (stroke.modifier = 0 ∨ stroke.modifier = bridgeModLeftShift ∨
      stroke.modifier = bridgeModRightAlt)

instance (stroke : BridgeStroke) : Decidable stroke.inReport :=
  inferInstanceAs (Decidable (_ ∧ _ ∧ _))

/-- Such a key that is neither Enter nor Tab. -/
def BridgeStroke.printing (stroke : BridgeStroke) : Prop :=
  stroke.inReport ∧ stroke.usage ≠ 0x28 ∧ stroke.usage ≠ 0x2b

instance (stroke : BridgeStroke) : Decidable stroke.printing :=
  inferInstanceAs (Decidable (_ ∧ _ ∧ _))

/-- What a job of a mode with flags may type. -/
structure Permitted (mode : UInt32) (flags : UInt8) (stroke : BridgeStroke) : Prop where
  inReport : stroke.inReport
  enter : stroke.usage = 0x28 → mode = bridgeModeText ∧ flags &&& bridgeFlagAllowLf ≠ 0
  tab : stroke.usage = 0x2b → mode = bridgeModeText ∧ flags &&& bridgeFlagAllowTab ≠ 0

theorem BridgeStroke.printing.permitted {stroke : BridgeStroke} (h : stroke.printing)
    (mode : UInt32) (flags : UInt8) : Permitted mode flags stroke :=
  ⟨h.1, fun henter => absurd henter h.2.1, fun htab => absurd htab h.2.2⟩

theorem Permitted.typable {mode : UInt32} {flags : UInt8} {stroke : BridgeStroke}
    (h : Permitted mode flags stroke) : stroke.typable := by
  intro h0
  have hone := h.inReport.1
  rw [h0] at hone
  exact absurd hone (by decide)

theorem mapSymbol_printing {cp : Nat} {keys : List (Nat × Nat × UInt8)} {stroke : BridgeStroke}
    (hkeys : ∀ k ∈ keys, BridgeStroke.printing ⟨bridgeModLeftShift, k.2.2⟩ ∧
      BridgeStroke.printing ⟨0, k.2.2⟩)
    (h : mapSymbol cp keys = .ok stroke) : stroke.printing := by
  induction keys with
  | nil => cases h
  | cons k keys ih =>
      simp only [mapSymbol] at h
      split at h
      · cases h
        obtain ⟨hshifted, hplain⟩ := hkeys k List.mem_cons_self
        split
        · exact hshifted
        · exact hplain
      · exact ih (fun k hk => hkeys k (List.mem_cons_of_mem _ hk)) h

/-- A letter's usage, counted from 4. -/
theorem letter_printing {n : Nat} (h : n < 26) :
    BridgeStroke.printing ⟨0, UInt8.ofNat (n + 4)⟩ ∧
      BridgeStroke.printing ⟨bridgeModLeftShift, UInt8.ofNat (n + 4)⟩ := by
  have hall : ∀ n < 26, BridgeStroke.printing ⟨0, UInt8.ofNat (n + 4)⟩ ∧
      BridgeStroke.printing ⟨bridgeModLeftShift, UInt8.ofNat (n + 4)⟩ := by decide
  exact hall n h

theorem mapAscii_printing {cp : Nat} {stroke : BridgeStroke}
    (h : mapAscii cp = .ok stroke) : stroke.printing := by
  simp only [mapAscii] at h
  split at h
  next hr =>
    cases h
    refine (letter_printing ?_).1
    have : 'a'.toNat = 97 ∧ 'z'.toNat = 122 := by decide
    omega
  next =>
    split at h
    next hr =>
      cases h
      refine (letter_printing ?_).2
      have : 'A'.toNat = 65 ∧ 'Z'.toNat = 90 := by decide
      omega
    next =>
      split at h
      · cases h
        decide
      · exact mapSymbol_printing (by decide) h

theorem lookup_printing {table : List (Nat × BridgeStroke)} {cp : Nat}
    {stroke : BridgeStroke} (htable : ∀ e ∈ table, e.2.printing)
    (h : table.lookup cp = some stroke) : stroke.printing := by
  obtain ⟨l, r, rfl, -⟩ := List.lookup_eq_some_iff.mp h
  exact htable (cp, stroke) (by simp)

theorem mapDe_printing {cp : Nat} {stroke : BridgeStroke}
    (h : mapDe cp = .ok stroke) : stroke.printing := by
  simp only [mapDe] at h
  split at h
  next hl =>
    cases h
    exact lookup_printing (by decide) hl
  next =>
    split at h
    next hl =>
      cases h
      exact lookup_printing (by decide) hl
    next => exact mapAscii_printing h

/-- The strokes of an accepted character are permitted. -/
theorem stageChar_permitted {layout mode : UInt32} {flags : UInt8} {cp : Nat}
    {strokes : List BridgeStroke} (h : stageChar layout mode flags cp = .ok strokes) :
    ∀ stroke ∈ strokes, Permitted mode flags stroke := by
  simp only [stageChar] at h
  split at h
  · split at h
    next hcontrol =>
      cases h
      intro stroke hs
      rw [List.mem_singleton.mp hs]
      obtain ⟨hmode, ⟨rfl, hflag⟩ | ⟨rfl, hflag⟩⟩ := hcontrol
      · exact ⟨by decide, fun _ => ⟨hmode, hflag⟩, fun htab => absurd htab (by decide)⟩
      · exact ⟨by decide, fun henter => absurd henter (by decide), fun _ => ⟨hmode, hflag⟩⟩
    next => cases h
  · split at h
    · cases h
    next stroke hmap =>
      have hmapped : stroke.printing := by
        split at hmap
        · exact mapDe_printing hmap
        · exact mapAscii_printing hmap
      split at h
      · cases h
        have hspace : BridgeStroke.printing ⟨0, 44⟩ := by decide
        simp only [List.mem_cons, List.not_mem_nil, or_false, forall_eq_or_imp, forall_eq]
        exact ⟨hmapped.permitted mode flags, hspace.permitted mode flags⟩
      · cases h
        intro stroke' hs
        rw [List.mem_singleton.mp hs]
        exact hmapped.permitted mode flags

/-- A character is one stroke or two. -/
theorem stageChar_length {layout mode : UInt32} {flags : UInt8} {cp : Nat}
    {strokes : List BridgeStroke} (h : stageChar layout mode flags cp = .ok strokes) :
    strokes.length ≤ 2 := by
  simp only [stageChar] at h
  split at h
  · split at h <;> cases h
    exact Nat.le_succ 1
  · split at h
    · cases h
    · split at h <;> cases h
      · exact Nat.le_refl 2
      · exact Nat.le_succ 1

-- ======================================================== the stage loop

/-- The statuses the stage loop can refuse an input with. -/
def InputError (st : BridgeStatus) : Prop :=
  st = .errUtf8 ∨ st = .errPolicy ∨ st = .errUnsupported

theorem InputError.ne_ok {st : BridgeStatus} (h : InputError st) : st ≠ .ok := by
  rcases h with rfl | rfl | rfl <;> decide

theorem InputError.ne_busy {st : BridgeStatus} (h : InputError st) : st ≠ .errBusy := by
  rcases h with rfl | rfl | rfl <;> decide

/-- Pushing strokes touches the stroke array and its count only. -/
theorem foldl_push_eq (strokes : List BridgeStroke) :
    ∀ core : BridgeCore, ∃ n f,
      strokes.foldl BridgeCore.push core = { core with strokeCount := n, strokes := f } := by
  induction strokes with
  | nil => exact fun core => ⟨_, _, rfl⟩
  | cons s strokes ih =>
      intro core
      obtain ⟨n, f, h⟩ := ih (core.push s)
      exact ⟨n, f, h⟩

/-- The stage loop either rejects, or accepts having changed nothing
but the stroke array and its count. -/
theorem stageLoop_cases (layout mode : UInt32) (flags : UInt8) (utf8 : List UInt8)
    (length : Nat) (core : BridgeCore) (offset : Nat) :
    (∃ st, InputError st ∧
        stageLoop layout mode flags utf8 length core offset = reject core st)
      ∨ ∃ n f, stageLoop layout mode flags utf8 length core offset
          = (.ok, { core with strokeCount := n, strokes := f }) := by
  fun_induction stageLoop layout mode flags utf8 length core offset with
  | case1 core offset _ st hd => exact .inl ⟨st, .inl (decodeUtf8_error hd), rfl⟩
  | case2 core offset _ cp next hd read st hc =>
      exact .inl ⟨st, .inr (stageChar_error hc), rfl⟩
  | case3 core offset _ cp next hd read strokes hc ih =>
      obtain ⟨n, f, hpush⟩ := foldl_push_eq strokes core
      rcases ih with ⟨st, hst, hrej⟩ | ⟨n', f', hok⟩
      · refine .inl ⟨st, hst, ?_⟩
        rw [hrej, hpush]
        rfl
      · refine .inr ⟨n', f', ?_⟩
        rw [hok, hpush]
  | case4 core offset _ => exact .inr ⟨_, _, rfl⟩

/-- What every accepted character preserves holds of an accepted
input's core. -/
theorem stageLoop_inv {layout mode : UInt32} {flags : UInt8} {utf8 : List UInt8}
    {length : Nat} {P : BridgeCore → Prop}
    (hchar : ∀ core cp strokes, stageChar layout mode flags cp = .ok strokes →
      P core → P (strokes.foldl BridgeCore.push core))
    {core core' : BridgeCore} {offset : Nat} (hP : P core)
    (h : stageLoop layout mode flags utf8 length core offset = (.ok, core')) : P core' := by
  fun_induction stageLoop layout mode flags utf8 length core offset with
  | case1 core offset _ st hd =>
      rw [decodeUtf8_error hd] at h
      cases h
  | case2 core offset _ cp next hd read st hc =>
      rcases stageChar_error hc with rfl | rfl <;> cases h
  | case3 core offset _ cp next hd read strokes hc ih =>
      exact ih (hchar core _ strokes hc hP) h
  | case4 core offset _ =>
      cases h
      exact hP

-- ================================================================= stage

/-- The core right after a successful stage. -/
def stagedCore (core : BridgeCore) (owner id layout mode : UInt32) (flags : UInt8)
    (nowMs ttlMs : UInt32) (n : Nat) (f : Nat → BridgeStroke) : BridgeCore where
  replay := core.replay ++ [(owner, id)]
  state := .staged
  owner := owner
  id := id
  stagedAtMs := nowMs
  ttlMs := ttlMs
  layout := layout
  mode := mode
  flags := flags
  strokeCount := n
  cursor := 0
  strokes := f

/-- Everything a stage can do: refuse a busy core untouched, wipe the
job region and report an error, or stage a job under a pair that was
not in the ledger. -/
theorem bridgeCoreStage_cases (core : BridgeCore) (owner id layout mode : UInt32)
    (flags : UInt8) (utf8 : Option (List UInt8)) (length : Nat) (nowMs ttlMs : UInt32) :
    (core.live ∧ bridgeCoreStage core owner id layout mode flags utf8 length nowMs ttlMs
        = (.errBusy, core))
      ∨ (¬core.live ∧ ∃ st, st ≠ .ok ∧ st ≠ .errBusy ∧
          bridgeCoreStage core owner id layout mode flags utf8 length nowMs ttlMs
            = (st, terminate core .rejected))
      ∨ (¬core.live ∧ (owner, id) ∉ core.replay ∧
          core.replay.length ≠ bridgeReplayCapacity ∧ ∃ input n f, utf8 = some input ∧
          bridgeCoreStage core owner id layout mode flags utf8 length nowMs ttlMs
            = (.ok, stagedCore core owner id layout mode flags nowMs ttlMs n f) ∧
          stageLoop layout mode flags input length
              { terminate core .empty with
                owner := owner, id := id, layout := layout, mode := mode
                flags := flags, stagedAtMs := nowMs, ttlMs := ttlMs } 0
            = (.ok, { terminate core .empty with
                owner := owner, id := id, layout := layout, mode := mode
                flags := flags, stagedAtMs := nowMs, ttlMs := ttlMs
                strokeCount := n, strokes := f })) := by
  by_cases hlive : core.live
  · exact .inl ⟨hlive, by simp [bridgeCoreStage, hlive]⟩
  right
  simp only [bridgeCoreStage, hlive, if_false]
  split
  · exact .inl ⟨fun h => h, .errLimit, by decide, by decide, rfl⟩
  cases utf8 with
  | none => exact .inl ⟨fun h => h, .errArgument, by decide, by decide, rfl⟩
  | some input =>
      dsimp only
      split
      · exact .inl ⟨fun h => h, .errArgument, by decide, by decide, rfl⟩
      split
      · exact .inl ⟨fun h => h, .errPolicy, by decide, by decide, rfl⟩
      split
      · exact .inl ⟨fun h => h, .errReplay, by decide, by decide, rfl⟩
      next hfresh =>
        split
        · exact .inl ⟨fun h => h, .errLimit, by decide, by decide, rfl⟩
        next hroom =>
          rcases stageLoop_cases layout mode flags input length
              { terminate core .empty with
                owner := owner, id := id, layout := layout, mode := mode
                flags := flags, stagedAtMs := nowMs, ttlMs := ttlMs } 0 with
            ⟨st, hst, hrej⟩ | ⟨n, f, hok⟩
          · refine .inl ⟨fun h => h, st, hst.ne_ok, hst.ne_busy, ?_⟩
            rw [hrej]
            rcases hst with rfl | rfl | rfl <;> rfl
          · refine .inr ⟨fun h => h, hfresh, hroom, input, n, f, rfl, ?_, hok⟩
            rw [hok]
            rfl

-- ==================================================== the other operations

/-- A tick expires a staged job whose time is up and does nothing else. -/
theorem bridgeCoreTick_cases (core : BridgeCore) (nowMs : UInt32) :
    (core.state = .staged ∧ core.elapsed nowMs ∧
        bridgeCoreTick core nowMs = (.errExpired, terminate core .expired))
      ∨ (¬(core.state = .staged ∧ core.elapsed nowMs) ∧
          bridgeCoreTick core nowMs = (.ok, core)) := by
  by_cases h : core.state = .staged ∧ core.elapsed nowMs
  · exact .inl ⟨h.1, h.2, by simp [bridgeCoreTick, h]⟩
  · exact .inr ⟨h, by simp [bridgeCoreTick, h]⟩

/-- A cancel needs a live job's own owner and id. -/
theorem bridgeCoreCancel_cases (core : BridgeCore) (owner id : UInt32) :
    (core.live ∧ owner = core.owner ∧ id = core.id ∧
        bridgeCoreCancel core owner id = (.ok, terminate core .cancelled))
      ∨ (¬(core.live ∧ owner = core.owner ∧ id = core.id) ∧ ∃ st,
          (st = .errState ∨ st = .errOwner ∨ st = .errId) ∧
          bridgeCoreCancel core owner id = (st, core)) := by
  by_cases hlive : core.live
  · by_cases ho : owner = core.owner
    · by_cases hi : id = core.id
      · exact .inl ⟨hlive, ho, hi, by simp [bridgeCoreCancel, hlive, ho, hi]⟩
      · exact .inr ⟨fun h => hi h.2.2, .errId, by decide,
          by simp [bridgeCoreCancel, hlive, ho, hi]⟩
    · exact .inr ⟨fun h => ho h.2.1, .errOwner, by decide,
        by simp [bridgeCoreCancel, hlive, ho]⟩
  · exact .inr ⟨fun h => hlive h.1, .errState, by decide,
      by simp [bridgeCoreCancel, hlive]⟩

/-- A confirm refuses, expires a job whose time is up, or starts the
typing of the staged job it names. -/
theorem bridgeCoreConfirm_cases (core : BridgeCore) (owner id nowMs : UInt32) :
    (∃ st, (st = .errState ∨ st = .errOwner ∨ st = .errId) ∧
        bridgeCoreConfirm core owner id nowMs = (st, core))
      ∨ (core.state = .staged ∧ owner = core.owner ∧ id = core.id ∧ core.elapsed nowMs ∧
          bridgeCoreConfirm core owner id nowMs = (.errExpired, terminate core .expired))
      ∨ (core.state = .staged ∧ owner = core.owner ∧ id = core.id ∧ ¬core.elapsed nowMs ∧
          bridgeCoreConfirm core owner id nowMs
            = (.ok, { core with state := .executing })) := by
  by_cases hs : core.state = .staged
  · by_cases ho : owner = core.owner
    · by_cases hi : id = core.id
      · right
        by_cases he : core.elapsed nowMs
        · exact .inl ⟨hs, ho, hi, he,
            by simp [bridgeCoreConfirm, bridgeCoreTick, hs, ho, hi, he]⟩
        · exact .inr ⟨hs, ho, hi, he,
            by simp [bridgeCoreConfirm, bridgeCoreTick, hs, ho, hi, he]⟩
      · exact .inl ⟨.errId, by decide, by simp [bridgeCoreConfirm, hs, ho, hi]⟩
    · exact .inl ⟨.errOwner, by decide, by simp [bridgeCoreConfirm, hs, ho]⟩
  · exact .inl ⟨.errState, by decide, by simp [bridgeCoreConfirm, hs]⟩

/-- The core after one stroke was taken. -/
def BridgeCore.advance (core : BridgeCore) : BridgeCore :=
  { core with
    strokes := Function.update core.strokes core.cursor zeroStroke
    cursor := core.cursor + 1 }

/-- Taking a stroke: an overdue staged job expires, a core that is not
executing refuses, an executing one completes or hands out the stroke
under its cursor. -/
theorem bridgeCoreNext_cases (core : BridgeCore) (nowMs : UInt32) :
    (core.state = .staged ∧ core.elapsed nowMs ∧
        bridgeCoreNext core nowMs = (.errExpired, zeroStroke, terminate core .expired))
      ∨ (core.state ≠ .executing ∧ ¬(core.state = .staged ∧ core.elapsed nowMs) ∧
          bridgeCoreNext core nowMs = (.errState, zeroStroke, core))
      ∨ (core.state = .executing ∧ core.cursor = core.strokeCount ∧
          bridgeCoreNext core nowMs = (.done, zeroStroke, terminate core .completed))
      ∨ (core.state = .executing ∧ core.cursor ≠ core.strokeCount ∧
          bridgeCoreNext core nowMs
            = (.ok, core.strokes core.cursor, core.advance)) := by
  rcases bridgeCoreTick_cases core nowMs with ⟨hs, he, ht⟩ | ⟨hn, ht⟩
  · exact .inl ⟨hs, he, by simp [bridgeCoreNext, ht]⟩
  · right
    by_cases hx : core.state = .executing
    · right
      by_cases hc : core.cursor = core.strokeCount
      · exact .inl ⟨hx, hc, by simp [bridgeCoreNext, ht, hx, hc]⟩
      · exact .inr ⟨hx, hc, by simp [bridgeCoreNext, ht, hx, hc, BridgeCore.advance]⟩
    · exact .inl ⟨hx, hn, by simp [bridgeCoreNext, ht, hx]⟩

end PicoBridge
