/-
What a controller can have typed, over every run of authenticated
commands and of the main loop's core calls.

The wire decoding of STAGE leaves two modes and any flags
(`stagedUnder`); the core refuses what the two do not allow, and every
stroke a job gives is permitted under the mode and the flags it was
staged with (`coreOp_gives`). What is left for the run is that a core
with a job holds the mode and the flags of the last STAGE that returned
OK (`Remembers`).
-/
import PicoBridge.Core.Strokes
import PicoBridge.Device.Effect

namespace PicoBridge

open Lib (Machine)

-- ================================================================ the runs

/-- An authenticated command frame, or a core call of the main loop. -/
inductive TypingInput
  | command (env : FrameEnv) (data : List UInt8)
  | next (nowMs : UInt32)
  | tick (nowMs : UInt32)
  | abort

/-- A job staged under a mode and flags, or a stroke that
`bridge_core_next` returned. -/
inductive TypingEvent
  | staged (mode : UInt32) (flags : UInt8)
  | typed (stroke : BridgeStroke)
  deriving DecidableEq

/-- The mode and flags on the wire of a STAGE that returned OK. -/
def stagedUnder (data : List UInt8) (after : Device) : List TypingEvent :=
  if byteOf data 0 = bleCmdStage ∧ after.cmdAckStatus = BridgeStatus.ok.toByte then
    [.staged (if byteOf data 10 = 2 then bridgeModeText else bridgeModePassword) (byteOf data 11)]
  else []

def typingStep (d : Device) : TypingInput → Device × List TypingEvent
  | .command env data =>
      let r := bleHandleAuthenticatedCommand d env data
      (r.2, stagedUnder data r.2)
  | .next nowMs =>
      let r := bridgeCoreNext d.core nowMs
      ({ d with core := r.2.2 }, if r.1 = .ok then [.typed r.2.1] else [])
  | .tick nowMs => ({ d with core := (bridgeCoreTick d.core nowMs).2 }, [])
  | .abort => ({ d with core := bridgeCoreAbort d.core }, [])

def typingMachine : Machine Device TypingInput TypingEvent where
  step := typingStep

/-- The mode and the flags of the last job staged. -/
def lastStaged (es : List TypingEvent) : Option (UInt32 × UInt8) :=
  es.foldl
    (fun last e => match e with
      | .staged mode flags => some (mode, flags)
      | .typed _ => last)
    none

theorem lastStaged_staged (es : List TypingEvent) (mode : UInt32) (flags : UInt8) :
    lastStaged (es ++ [.staged mode flags]) = some (mode, flags) := by
  rw [lastStaged, List.foldl_append]
  rfl

theorem lastStaged_typed (es : List TypingEvent) (stroke : BridgeStroke) :
    lastStaged (es ++ [.typed stroke]) = lastStaged es := by
  rw [lastStaged, List.foldl_append]
  rfl

-- ======================================================= the job remembered

/-- A live core has the mode and the flags of a job that was staged. -/
def Remembers (core : BridgeCore) (last : Option (UInt32 × UInt8)) : Prop :=
  core.live → last = some (core.mode, core.flags)

/-- A live core's job was there before, under the same mode and flags. -/
def SameJob (core core' : BridgeCore) : Prop :=
  core'.live → core.live ∧ core'.mode = core.mode ∧ core'.flags = core.flags

theorem SameJob.refl (core : BridgeCore) : SameJob core core := fun h => ⟨h, rfl, rfl⟩

/-- A core that is terminated has no job. -/
theorem sameJob_terminate (core : BridgeCore) {st : BridgeState}
    (hst : st ≠ .staged ∧ st ≠ .executing) : SameJob core (terminate core st) :=
  fun h => absurd h (not_or.mpr hst)

theorem SameJob.remembers {core core' : BridgeCore} (h : SameJob core core')
    {last : Option (UInt32 × UInt8)} (hlast : Remembers core last) : Remembers core' last := by
  intro hlive
  obtain ⟨hlive', hmode, hflags⟩ := h hlive
  rw [hmode, hflags]
  exact hlast hlive'

theorem confirm_sameJob (core : BridgeCore) (owner id nowMs : UInt32) :
    SameJob core (bridgeCoreConfirm core owner id nowMs).2 := by
  rcases bridgeCoreConfirm_cases core owner id nowMs with
    ⟨st, -, h⟩ | ⟨-, -, -, -, h⟩ | ⟨hs, -, -, -, h⟩
  · rw [h]
    exact .refl core
  · rw [h]
    exact sameJob_terminate core (by decide)
  · rw [h]
    exact fun _ => ⟨.inl hs, rfl, rfl⟩

theorem cancel_sameJob (core : BridgeCore) (owner id : UInt32) :
    SameJob core (bridgeCoreCancel core owner id).2 := by
  rcases bridgeCoreCancel_cases core owner id with ⟨-, -, -, h⟩ | ⟨-, st, -, h⟩
  · rw [h]
    exact sameJob_terminate core (by decide)
  · rw [h]
    exact .refl core

theorem tick_sameJob (core : BridgeCore) (nowMs : UInt32) :
    SameJob core (bridgeCoreTick core nowMs).2 := by
  rcases bridgeCoreTick_cases core nowMs with ⟨-, -, h⟩ | ⟨-, h⟩
  · rw [h]
    exact sameJob_terminate core (by decide)
  · rw [h]
    exact .refl core

theorem next_sameJob (core : BridgeCore) (nowMs : UInt32) :
    SameJob core (bridgeCoreNext core nowMs).2.2 := by
  rcases bridgeCoreNext_cases core nowMs with
    ⟨-, -, h⟩ | ⟨-, -, h⟩ | ⟨-, -, h⟩ | ⟨hs, -, h⟩
  · rw [h]
    exact sameJob_terminate core (by decide)
  · rw [h]
    exact .refl core
  · rw [h]
    exact sameJob_terminate core (by decide)
  · rw [h]
    exact fun _ => ⟨.inr hs, rfl, rfl⟩

-- ========================================================= a command frame

/-- The dispatcher on a STAGE frame. -/
theorem stage_frame (d : Device) (env : FrameEnv) {data : List UInt8}
    (hcmd : byteOf data 0 = bleCmdStage) :
    let r := bleHandleStage d.core env.bleNowMs data
    bleHandleAuthenticatedCommand d env data
      = (true, { d with core := r.2, cmdAckStatus := r.1.toByte }) := by
  have hlen : data.length ≠ 0 := by
    intro h
    rw [List.length_eq_zero_iff.mp h] at hcmd
    exact absurd hcmd (by decide)
  unfold bleHandleAuthenticatedCommand bridgeCommand
  dsimp only
  rw [if_neg hlen, if_pos hcmd]
  rfl

/-- A STAGE frame leaves a job under the wire's mode and flags, having
returned OK, or the job that was there. -/
theorem bleHandleStage_cases (core : BridgeCore) (now : UInt32) (p : List UInt8) :
    let r := bleHandleStage core now p
    (r.1 = .ok ∧ r.2.flags = byteOf p 11 ∧
        r.2.mode = (if byteOf p 10 = 2 then bridgeModeText else bridgeModePassword)) ∨
      (r.1 ≠ .ok ∧ SameJob core r.2) := by
  have hargument : BridgeStatus.errArgument ≠ .ok := by decide
  have hbusy : BridgeStatus.errBusy ≠ .ok := by decide
  unfold bleHandleStage
  dsimp only
  split
  next => exact .inr ⟨hargument, .refl core⟩
  next =>
    split
    next => exact .inr ⟨hargument, .refl core⟩
    next =>
      rcases bridgeCoreStage_cases core (u32Of p 1) (u32Of p 5)
          (if byteOf p 9 = 2 then bridgeLayoutDe else bridgeLayoutUs)
          (if byteOf p 10 = 2 then bridgeModeText else bridgeModePassword) (byteOf p 11)
          (some (p.drop 14)) (u16Of p 12) now bridgeTtlMs with
        ⟨-, h⟩ | ⟨-, st, hst, -, h⟩ | ⟨-, -, -, input, n, f, -, h, -⟩
      · rw [h]
        exact .inr ⟨hbusy, .refl core⟩
      · rw [h]
        exact .inr ⟨hst, sameJob_terminate core (by decide)⟩
      · rw [h]
        exact .inl ⟨rfl, rfl, rfl⟩

/-- Every other frame leaves the job that was there. -/
theorem command_sameJob (d : Device) (env : FrameEnv) {data : List UInt8}
    (hcmd : byteOf data 0 ≠ bleCmdStage) :
    SameJob d.core (bleHandleAuthenticatedCommand d env data).2.core := by
  rw [(command_effect d env data).core]
  unfold commandCall
  dsimp only
  rw [if_neg hcmd]
  split
  · split
    · exact .refl d.core
    · exact confirm_sameJob d.core _ _ _
  · split
    · split
      · exact .refl d.core
      · exact cancel_sameJob d.core _ _
    · split
      · split
        · exact .refl d.core
        · exact tick_sameJob d.core _
      · exact .refl d.core

-- ================================================================ the step

/-- The strokes to come are there and permitted. -/
structure WellStaged (core : BridgeCore) : Prop where
  contained : Contained core
  gives : core.gives Permitted

theorem coreOp_wellStaged {core : BridgeCore} (h : WellStaged core) (call : CoreCall) :
    WellStaged (coreOp core call).2 :=
  ⟨coreOp_contained h.contained call,
    coreOp_gives (fun _ _ _ _ _ hc => stageChar_permitted hc) h.gives call⟩

theorem command_wellStaged {d : Device} (h : WellStaged d.core) (env : FrameEnv)
    (data : List UInt8) : WellStaged (bleHandleAuthenticatedCommand d env data).2.core := by
  rw [(command_effect d env data).core]
  cases commandCall data with
  | none => exact h
  | some call => exact coreOp_wellStaged h (call.coreCall env.bleNowMs)

/-- What holds along a run: the strokes to come are permitted under the
mode and flags of the last job staged. -/
structure Typing (d : Device) (es : List TypingEvent) : Prop where
  wellStaged : WellStaged d.core
  remembers : Remembers d.core (lastStaged es)

theorem typing_command {d : Device} {es : List TypingEvent} (h : Typing d es) (env : FrameEnv)
    (data : List UInt8) :
    let r := typingStep d (.command env data)
    Typing r.1 (es ++ r.2) := by
  refine ⟨command_wellStaged h.wellStaged env data, ?_⟩
  show Remembers (bleHandleAuthenticatedCommand d env data).2.core _
  by_cases hcmd : byteOf data 0 = bleCmdStage
  · unfold typingStep stagedUnder
    dsimp only
    rw [stage_frame d env hcmd]
    dsimp only
    rcases bleHandleStage_cases d.core env.bleNowMs data with ⟨hok, hflags, hmode⟩ | ⟨hno, hsame⟩
    · rw [hok, if_pos ⟨hcmd, rfl⟩, lastStaged_staged]
      intro _
      rw [hflags, hmode]
    · rw [if_neg fun hack => hno (toByte_ok hack.2), List.append_nil]
      exact hsame.remembers h.remembers
  · unfold typingStep stagedUnder
    dsimp only
    rw [if_neg fun hack => hcmd hack.1, List.append_nil]
    exact (command_sameJob d env hcmd).remembers h.remembers

theorem typing_next {d : Device} {es : List TypingEvent} (h : Typing d es) (nowMs : UInt32) :
    let r := typingStep d (.next nowMs)
    Typing r.1 (es ++ r.2) := by
  refine ⟨coreOp_wellStaged h.wellStaged (.next nowMs false), ?_⟩
  have hsame := (next_sameJob d.core nowMs).remembers h.remembers
  unfold typingStep
  dsimp only
  split
  · rw [lastStaged_typed]
    exact hsame
  · rw [List.append_nil]
    exact hsame

theorem typing_step {d : Device} {es : List TypingEvent} (h : Typing d es) (i : TypingInput) :
    Typing (typingStep d i).1 (es ++ (typingStep d i).2) := by
  cases i with
  | command env data => exact typing_command h env data
  | next nowMs => exact typing_next h nowMs
  | tick nowMs =>
      refine ⟨coreOp_wellStaged h.wellStaged (.tick nowMs), ?_⟩
      show Remembers _ (lastStaged (es ++ []))
      rw [List.append_nil]
      exact (tick_sameJob d.core nowMs).remembers h.remembers
  | abort =>
      refine ⟨coreOp_wellStaged h.wellStaged .abort, ?_⟩
      show Remembers _ (lastStaged (es ++ []))
      rw [List.append_nil]
      exact (sameJob_terminate d.core (by decide)).remembers h.remembers

-- ============================================================== the strokes

/-- A stroke that is handed out was still to come, from a job that is
being typed. -/
theorem next_typed {core : BridgeCore} (h : WellStaged core) {nowMs : UInt32}
    (hok : (bridgeCoreNext core nowMs).1 = .ok) :
    core.live ∧ (bridgeCoreNext core nowMs).2.1 ∈ core.remaining := by
  rcases bridgeCoreNext_cases core nowMs with
    ⟨-, -, hr⟩ | ⟨-, -, hr⟩ | ⟨-, -, hr⟩ | ⟨hs, hc, hr⟩
  · rw [hr] at hok
    cases hok
  · rw [hr] at hok
    cases hok
  · rw [hr] at hok
    cases hok
  · have hlt : core.cursor < core.strokeCount :=
      Nat.lt_of_le_of_ne (h.contained.held (.inr hs)).cursor_le hc
    rw [hr, remaining_advance hlt]
    exact ⟨.inr hs, List.mem_cons_self⟩

/-- What holds of each event: a stroke is permitted under the mode and
flags of the last job staged before it. -/
def Obeys (es : List TypingEvent) : TypingEvent → Prop
  | .staged _ _ => True
  | .typed stroke =>
      ∃ mode flags, lastStaged es = some (mode, flags) ∧ Permitted mode flags stroke

theorem typing_obeys {d : Device} {es : List TypingEvent} (h : Typing d es) (i : TypingInput)
    {pre post : List TypingEvent} {e : TypingEvent}
    (hout : (typingStep d i).2 = pre ++ e :: post) : Obeys (es ++ pre) e := by
  cases i with
  | command env data =>
      unfold typingStep stagedUnder at hout
      dsimp only at hout
      split at hout
      · obtain ⟨rfl, rfl, -⟩ := Machine.singleton_split hout
        trivial
      · exact absurd hout (by simp)
  | next nowMs =>
      unfold typingStep at hout
      dsimp only at hout
      split at hout
      next hok =>
        obtain ⟨rfl, rfl, -⟩ := Machine.singleton_split hout
        obtain ⟨hlive, hmem⟩ := next_typed h.wellStaged hok
        rw [List.append_nil]
        exact ⟨_, _, h.remembers hlive, h.wellStaged.gives _ hmem⟩
      next => exact absurd hout (by simp)
  | tick nowMs => exact absurd hout (by simp [typingStep])
  | abort => exact absurd hout (by simp [typingStep])

/-- Keystroke policy, over every run from a core that was just
initialised: a stroke that `bridge_core_next` returns is a key of the
report descriptor's range under no modifier, left shift or right alt,
and Enter and Tab only for a job that was staged in TEXT mode with
their flag. -/
theorem typed_strokes_permitted (d : Device) (is : List TypingInput)
    {pre post : List TypingEvent} {stroke : BridgeStroke}
    (hrun : typingMachine.trace { d with core := bridgeCoreInit } is
      = pre ++ .typed stroke :: post) :
    ∃ mode flags, lastStaged pre = some (mode, flags) ∧ Permitted mode flags stroke := by
  have hidle : ¬bridgeCoreInit.live := by decide
  have hstart : Typing { d with core := bridgeCoreInit } [] :=
    ⟨⟨contained_init, terminate_gives bridgeCoreInit _⟩, fun hlive => absurd hlive hidle⟩
  exact typingMachine.trace_past (G := fun _ _ => True) (P := Typing) (Q := Obeys)
    (fun _ _ i h _ => typing_step h i) (fun _ _ i h _ _ _ _ hout => typing_obeys h i hout)
    is _ [] hstart (typingMachine.stepsMeet_true _ is) pre _ post hrun

/-- "a" and a line feed, staged in TEXT mode with ALLOW_LF, confirmed and
typed. -/
def typedLine : List TypingInput :=
  [.command (envAt 1000) [1, 7, 0, 0, 0, 1, 0, 0, 0, 1, 2, 1, 2, 0, 97, 10],
    .command (envAt 1000) [2, 7, 0, 0, 0, 1, 0, 0, 0], .next 1000, .next 1000]

theorem typedLine_permitted :
    ∃ mode flags, lastStaged [.staged bridgeModeText 1, .typed ⟨0, 4⟩] = some (mode, flags) ∧
      Permitted mode flags ⟨0, 0x28⟩ :=
  @typed_strokes_permitted benchDevice typedLine [.staged bridgeModeText 1, .typed ⟨0, 4⟩] []
    ⟨0, 0x28⟩ (by decide +kernel)

end PicoBridge
