/-
A whole errand of `tools/pico_tcp_send.py`: `exchange` stages a text,
confirms it, and stages and confirms the Enter key behind it.

# What is modelled how

`exchange` is taken in the session that its `with` has opened, on a
carrier without loss, as in Link/Retry.lean. What it draws from `secrets`
and reads from its arguments are parameters. Between its commands the core
has the calls of the keyboard side: strokes taken, ticks, aborts.

# The argument

An attempt that is answered BUSY leaves the core as it is, so each loop is
a run of the keyboard side and one stage (`stageUntil_runs`). The keyboard
side never stages, so a job that a confirm finds staged is the one that
was staged last and nothing has happened to it (`quiet_staged`); and a
core that takes the Enter key has ended the text's job (`typing_ends`).
-/
import PicoBridge.Link.Retry
import PicoBridge.Usb.Origin

namespace PicoBridge

open Lib (Machine)
open Lib.Utf8 (encode)

-- ================================================================ the errand

/-- What an errand is about. -/
structure Errand where
  owner : UInt32
  cmdId : UInt32
  enterId : UInt32
  layout : UInt8
  mode : UInt8
  raw : List UInt8
  enter : Bool

/-- The turns of its two `stage_and_confirm`. -/
structure ErrandTurns where
  stage : List Turn
  confirm : Turn
  enterStage : List Turn
  enterConfirm : Turn

variable (lib : Crypto)

/-- `exchange` of `pico_tcp_send`; none where it has not ended, or where a
packet is not built. -/
def tcpExchange (x : Errand) (r : ErrandTurns) (s : Ends) :
    Option (Except CommandError Ends) := do
  let packet ← buildStagePacket x.owner.toNat x.cmdId.toNat x.layout.toNat x.mode.toNat 0 x.raw
  let confirm ← buildConfirmPacket x.owner.toNat x.cmdId.toNat
  match ← (stageAndConfirm lib packet confirm r.stage r.confirm s).2 with
  | .error e => some (.error e)
  | .ok s =>
      if ¬x.enter then some (.ok s)
      else do
        let enter ← buildStagePacket x.owner.toNat x.enterId.toNat x.layout.toNat
          bridgeModeText.toNat bridgeFlagAllowLf.toNat [10]
        let confirm ← buildConfirmPacket x.owner.toNat x.enterId.toNat
        (stageAndConfirm lib enter confirm r.enterStage r.enterConfirm s).2

variable {lib}

-- ======================================================= the keyboard side

instance : DecidablePred CoreCall.keyboards := fun c => by
  cases c <;> unfold CoreCall.keyboards <;> infer_instance

/-- A call of a kind, on a core that is there. -/
def Asks (kind : CoreCall → Prop) (c : Bool × CoreCall) : Prop := c.1 = false ∧ kind c.2

variable {kind : CoreCall → Prop} {core core' : BridgeCore} {ls : List CoreLabel}

theorem quiet_staged (h : coreMachine.Runs (Asks CoreCall.keyboards) core ls core')
    (hstaged : core'.state = .staged) : core' = core ∧ ls = [] := by
  obtain ⟨calls, hcalls, rfl, rfl⟩ := h
  induction calls generalizing core with
  | nil => exact ⟨rfl, rfl⟩
  | cons c calls ih =>
      obtain ⟨coreNull, call⟩ := c
      obtain ⟨hnull, hcall⟩ := hcalls _ List.mem_cons_self
      obtain rfl : coreNull = false := hnull
      obtain ⟨hfinal, htrace⟩ := ih (fun c hc => hcalls c (List.mem_cons_of_mem _ hc)) hstaged
      have hnow : coreMachine.step core (false, call) = (core, []) := by
        refine keyboards_staged hcall ?_
        rw [← hfinal]
        exact hstaged
      rw [hnow] at hfinal htrace
      rw [Machine.final_cons, Machine.trace_cons, hnow]
      exact ⟨hfinal, by rw [htrace]; rfl⟩

/-- Nothing but drops is seen of an idle core, and of these only the
aborts. -/
theorem idle_drops {calls : List (Bool × CoreCall)} : ∀ {core : BridgeCore},
    (∀ c ∈ calls, Asks CoreCall.keyboards c) → ¬core.live →
    ∃ n, coreMachine.trace core calls = List.replicate n .drop ∧
      ((∀ c ∈ calls, c.2 ≠ .abort) → n = 0) := by
  induction calls with
  | nil => exact fun _ _ => ⟨0, rfl, fun _ => rfl⟩
  | cons c calls ih =>
      intro core hcalls hidle
      obtain ⟨coreNull, call⟩ := c
      obtain ⟨hnull, hcall⟩ := hcalls _ List.mem_cons_self
      obtain rfl : coreNull = false := hnull
      have hrest := fun c hc => hcalls c (List.mem_cons_of_mem _ hc)
      rcases keyboards_idle hcall hidle with hstep | ⟨core', hstep, hidle', rfl⟩
      · obtain ⟨n, htrace, hnone⟩ := ih hrest hidle
        rw [Machine.trace_cons, hstep]
        exact ⟨n, htrace, fun hno => hnone fun c hc => hno c (List.mem_cons_of_mem _ hc)⟩
      · obtain ⟨n, htrace, -⟩ := ih hrest hidle'
        rw [Machine.trace_cons, hstep]
        refine ⟨n + 1, ?_, fun hno => absurd rfl (hno _ List.mem_cons_self)⟩
        show .drop :: coreMachine.trace core' calls = _
        rw [htrace, List.replicate_succ]

/-- What is seen of a core between a confirm and the end of its job:
strokes of the job, in order, and how it ended. -/
theorem typing_ends {calls : List (Bool × CoreCall)} : ∀ {core : BridgeCore},
    (∀ c ∈ calls, Asks CoreCall.keyboards c) → core.state = .executing →
    core.cursor ≤ core.strokeCount → ¬(coreMachine.final core calls).live →
    ∃ taken n, coreMachine.trace core calls = taken.map .take ++ List.replicate (n + 1) .drop ∧
      taken <+: core.remaining ∧
      ((∀ c ∈ calls, c.2 ≠ .abort) → taken = core.remaining ∧ n = 0) := by
  induction calls with
  | nil => exact fun _ hexecuting _ hended => absurd (.inr hexecuting) hended
  | cons c calls ih =>
      intro core hcalls hexecuting hcursor hended
      obtain ⟨coreNull, call⟩ := c
      obtain ⟨hnull, hcall⟩ := hcalls _ List.mem_cons_self
      obtain rfl : coreNull = false := hnull
      have hrest := fun c hc => hcalls c (List.mem_cons_of_mem _ hc)
      rw [Machine.final_cons] at hended
      rcases keyboards_executing hcall hexecuting with
        hstep | ⟨hmore, hstep⟩ | ⟨core', hstep, hidle, hend⟩
      · rw [hstep] at hended
        obtain ⟨taken, n, htrace, hinitial, hall⟩ := ih hrest hexecuting hcursor hended
        rw [Machine.trace_cons, hstep]
        exact ⟨taken, n, htrace, hinitial,
          fun hno => hall fun c hc => hno c (List.mem_cons_of_mem _ hc)⟩
      · have hlt : core.cursor < core.strokeCount := by omega
        rw [hstep] at hended
        obtain ⟨taken, n, htrace, hinitial, hall⟩ := @ih core.advance hrest hexecuting hlt hended
        rw [Machine.trace_cons, hstep, remaining_advance hlt]
        refine ⟨core.strokes core.cursor :: taken, n, ?_, ?_, fun hno => ?_⟩
        · show .take _ :: coreMachine.trace core.advance calls = _
          rw [htrace]
          rfl
        · exact List.cons_prefix_cons.mpr ⟨rfl, hinitial⟩
        · obtain ⟨htaken, hn⟩ := hall fun c hc => hno c (List.mem_cons_of_mem _ hc)
          exact ⟨by rw [htaken], hn⟩
      · obtain ⟨n, htrace, hnone⟩ := idle_drops hrest hidle
        rw [Machine.trace_cons, hstep]
        refine ⟨[], n, ?_, List.nil_prefix, fun hno => ⟨?_, ?_⟩⟩
        · show .drop :: coreMachine.trace core' calls = _
          rw [htrace]
          rfl
        · have hcursor := hend (hno _ List.mem_cons_self)
          unfold BridgeCore.remaining
          rw [hcursor, Nat.sub_self]
          rfl
        · exact hnone fun c hc => hno c (List.mem_cons_of_mem _ hc)

-- ============================================================ one command

/-- The job of a text. -/
structure TextJob (owner id layout mode : UInt32) (flags : UInt8) (payload : List UInt8)
    (j : StagedJob) : Prop where
  owner : j.owner = owner
  id : j.id = id
  ttl : j.ttlMs = bridgeTtlMs
  text : ∃ text, payload = encode text ∧ TypableText layout mode flags text ∧
    j.strokes = (newlineText text).flatMap (typed layout)

/-- The layout and the mode that a wire byte selects. -/
def wireLayout (layout : UInt8) : UInt32 :=
  if layout = 2 then bridgeLayoutDe else bridgeLayoutUs

def wireMode (mode : UInt8) : UInt32 := if mode = 2 then bridgeModeText else bridgeModePassword

theorem inputBytes_all (payload : List UInt8) : inputBytes payload payload.length = payload := by
  unfold inputBytes
  refine List.ext_getElem (by simp) fun i hi hi' => ?_
  rw [List.getElem_map, List.getElem_range, List.getD_eq_getElem?_getD,
    List.getElem?_eq_getElem hi', Option.getD_some]

/-- A stage that is accepted. -/
theorem stageCall_ok {owner id : UInt32} {layout mode flags : UInt8} {payload : List UInt8}
    {now : UInt32} (h : stageCall owner id layout mode flags payload core now = (.ok, core')) :
    ¬core.live ∧ core'.state = .staged ∧ core'.cursor = 0 ∧
      TextJob owner id (wireLayout layout) (wireMode mode) flags payload core'.job ∧
      coreMachine.step core (false, .stage owner id (wireLayout layout) (wireMode mode) flags
        (some payload) payload.length now bridgeTtlMs) = (core', [.offer core'.job]) := by
  have hcall : bridgeCoreStage core owner id (wireLayout layout) (wireMode mode) flags
      (some payload) payload.length now bridgeTtlMs = (.ok, core') := h
  have hok := congrArg Prod.fst hcall
  obtain ⟨text, hbytes, htypable, hstrokes⟩ := stage_accepted hok
  rw [hcall] at hstrokes
  rw [inputBytes_all] at hbytes
  have hstep : coreMachine.step core (false, .stage owner id (wireLayout layout) (wireMode mode)
      flags (some payload) payload.length now bridgeTtlMs)
      = (core', [.offer ⟨owner, id, now, bridgeTtlMs, core'.strokeList⟩]) := by
    simp only [coreMachine, coreCall, coreOp, Bool.false_eq_true, if_false]
    rw [hcall]
    rfl
  rcases bridgeCoreStage_cases core owner id (wireLayout layout) (wireMode mode) flags
      (some payload) payload.length now bridgeTtlMs with
    ⟨-, hbusy⟩ | ⟨-, st, hne, -, hrefused⟩ | ⟨hidle, -, -, input, n, f, -, hstaged, -⟩
  · rw [hbusy] at hok
    cases hok
  · rw [hrefused] at hok
    exact absurd hok hne
  · obtain rfl := (Prod.mk.inj (hstaged.symm.trans hcall)).2
    exact ⟨hidle, rfl, rfl, ⟨rfl, rfl, rfl, text, hbytes, htypable, hstrokes⟩, hstep⟩

/-- A confirm that is accepted. -/
theorem confirm_ok {owner id now : UInt32}
    (h : bridgeCoreConfirm core owner id now = (.ok, core')) :
    core.state = .staged ∧ core' = { core with state := .executing } ∧
      coreMachine.step core (false, .confirm owner id now)
        = (core', [.approve (core.owner, core.id) now]) := by
  have hstep : coreMachine.step core (false, .confirm owner id now)
      = (core', [.approve (owner, id) now]) := by
    simp only [coreMachine, coreCall, coreOp, Bool.false_eq_true, if_false]
    rw [h]
    rfl
  rcases bridgeCoreConfirm_cases core owner id now with
    ⟨st, hst, hrefused⟩ | ⟨-, -, -, -, hexpired⟩ | ⟨hstaged, rfl, rfl, -, hconfirmed⟩
  · rw [hrefused] at h
    obtain ⟨rfl, -⟩ := Prod.mk.inj h
    rcases hst with hst | hst | hst <;> cases hst
  · rw [hexpired] at h
    cases h
  · rw [hconfirmed] at h
    exact ⟨hstaged, (Prod.mk.inj h).2.symm, hstep⟩

-- ================================================================ the loops

/-- What the core has been through between two commands. -/
theorem idle_runs (s : Ends) {calls : List CoreCall} (hcalls : ∀ c ∈ calls, kind c) :
    ∃ ls, coreMachine.Runs (Asks kind) s.device.core ls (s.idle calls).device.core := by
  have hfold : ∀ (calls : List CoreCall) (core : BridgeCore),
      calls.foldl (fun core call => (coreOp core call).2) core
        = coreMachine.final core (calls.map (false, ·)) := by
    intro calls
    induction calls with
    | nil => exact fun _ => rfl
    | cons c calls ih => exact fun core => ih _
  refine ⟨_, calls.map (false, ·), fun c hc => ?_, (hfold calls s.device.core).symm, rfl⟩
  obtain ⟨call, hcall, rfl⟩ := List.mem_map.mp hc
  exact ⟨rfl, hcalls call hcall⟩

/-- A loop that returns: the core has been through calls of the meantime,
and then through one stage. -/
theorem stageUntil_runs {stage : BridgeCore → UInt32 → BridgeStatus × BridgeCore}
    (hbusy : ∀ core now, (stage core now).1 = .errBusy → (stage core now).2 = core)
    {send : FrameEnv → Ends → Except CommandError Unit × Ends}
    (hsend : ∀ env s, s.synced → Went stage ⟨env, s, (send env s).1, (send env s).2⟩)
    (turns : List Turn) : ∀ {s final : Ends}, s.synced →
      (∀ turn ∈ turns, ∀ c ∈ turn.meanwhile, kind c) →
      (stageUntil send turns s).2 = some (.ok final) →
      ∃ ls core₁ now, coreMachine.Runs (Asks kind) s.device.core ls core₁ ∧
        stage core₁ now = (.ok, final.device.core) := by
  induction turns with
  | nil => exact fun _ _ h => by cases h
  | cons turn turns ih =>
      intro s final hsync hkind h
      obtain ⟨ls, hidle⟩ := idle_runs s (hkind turn List.mem_cons_self)
      have hwent := hsend turn.env (s.idle turn.meanwhile) hsync
      unfold stageUntil at h
      dsimp only at h
      generalize hr : send turn.env (s.idle turn.meanwhile) = r at hwent h
      obtain ⟨outcome, after⟩ := r
      dsimp only at hwent h
      cases hwent with
      | accepted hcall houtcome hstep =>
          cases houtcome
          cases h
          exact ⟨ls, _, turn.env.bleNowMs, hidle, hcall⟩
      | refused st hfailed hcall houtcome hstep =>
          cases houtcome
          dsimp only at h
          split at h
          next hretry =>
            obtain rfl := (saysBusy_iff st).mp hretry.1
            have hcore : after.device.core = (s.idle turn.meanwhile).device.core := by
              have hkept := hbusy _ turn.env.bleNowMs (congrArg Prod.fst hcall)
              exact (congrArg Prod.snd hcall).symm.trans hkept
            obtain ⟨ls', core₁, now, hruns, hstage⟩ :=
              ih hstep (fun t ht => hkind t (List.mem_cons_of_mem _ ht)) h
            rw [hcore] at hruns
            exact ⟨ls ++ ls', core₁, now, hidle.append hruns, hstage⟩
          next => cases h
      | raised e hunanswered houtcome =>
          cases houtcome
          dsimp only at h
          rw [if_neg fun hretry => hunanswered.not_busy hretry.1] at h
          cases h

/-- A confirm that is not refused is the core's. -/
theorem confirmStaged_call (hlib : lib.Lawful) {owner id : UInt32} {confirm : List UInt8}
    (hconfirm : buildConfirmPacket owner.toNat id.toNat = some confirm) {turn : Turn}
    {s final : Ends} (hsync : s.synced) (h : confirmStaged lib confirm turn s = .ok final) :
    bridgeCoreConfirm (s.idle turn.meanwhile).device.core owner id turn.env.bleNowMs
      = (.ok, final.device.core) := by
  obtain rfl := Option.some.inj ((buildJobPacket_eq cmdConfirm owner id).symm.trans hconfirm)
  have hcases := command_cases hlib .tcp (jobPacket cmdConfirm owner id) turn.env
    (show (s.idle turn.meanwhile).synced from hsync)
  have hcall : bridgeCommand (s.idle turn.meanwhile).device.received turn.env
      (jobPacket cmdConfirm owner id)
      = some ((s.idle turn.meanwhile).device.received.onCore
          (bridgeCoreConfirm (s.idle turn.meanwhile).device.core owner id turn.env.bleNowMs)) := by
    rw [← bleHandleConfirm_packet _ turn.env.bleNowMs cmdConfirm owner id]
    rfl
  have hcommand := command_frame _ turn.env
    (show (jobPacket cmdConfirm owner id).length ≠ 0 from Nat.succ_ne_zero 8) hcall
  unfold confirmStaged at h
  generalize command lib .tcp (jobPacket cmdConfirm owner id) turn.env (s.idle turn.meanwhile)
    = r at h hcases
  obtain ⟨outcome, after⟩ := r
  dsimp only at h hcases
  rcases hcases with ⟨-, -, d', hd', hcore, hstatus⟩ | ⟨e, rfl, -⟩
  · rw [hcommand] at hd'
    cases hd'
    dsimp only at hstatus hcore
    by_cases hok : (bridgeCoreConfirm (s.idle turn.meanwhile).device.core owner id
        turn.env.bleNowMs).1 = .ok
    · rw [hok, if_neg (by decide)] at hstatus
      subst hstatus
      cases h
      exact Prod.ext hok hcore.symm
    · have hrefused : (bridgeCoreConfirm (s.idle turn.meanwhile).device.core owner id
          turn.env.bleNowMs).1.toByte ≠ 0 := fun hzero => hok (toByte_ok hzero)
      rw [if_pos hrefused] at hstatus
      subst hstatus
      cases h
  · cases h

/-- What a `stage_and_confirm` that returns has made of the core: calls of
the meantime, one stage, one confirm of the job that was staged. -/
theorem stageAndConfirm_runs (hlib : lib.Lawful) {owner id : UInt32} {layout mode flags : UInt8}
    {payload packet confirm : List UInt8}
    (hpacket : buildStagePacket owner.toNat id.toNat layout.toNat mode.toNat flags.toNat payload
      = some packet) (hconfirm : buildConfirmPacket owner.toNat id.toNat = some confirm)
    {turns : List Turn} {last : Turn} {s final : Ends} (hsync : s.synced)
    (hkind : ∀ turn ∈ turns, ∀ c ∈ turn.meanwhile, kind c)
    (hlast : ∀ c ∈ last.meanwhile, c.keyboards)
    (h : (stageAndConfirm lib packet confirm turns last s).2 = some (.ok final)) :
    ∃ ls, ∃ core₁ staged : BridgeCore, ∃ now,
      coreMachine.Runs (Asks kind) s.device.core ls core₁ ∧ ¬core₁.live ∧ staged.cursor = 0 ∧
      TextJob owner id (wireLayout layout) (wireMode mode) flags payload staged.job ∧
      coreMachine.Runs (fun _ => True) core₁
        [.offer staged.job, .approve (staged.owner, staged.id) now] final.device.core ∧
      final.device.core = { staged with state := .executing } ∧ final.synced := by
  have hbusy : ∀ core now, (stageCall owner id layout mode flags payload core now).1 = .errBusy →
      (stageCall owner id layout mode flags payload core now).2 = core :=
    fun core now => (stage_failed core owner id _ _ flags (some payload) payload.length now
      bridgeTtlMs).1
  have hsend : ∀ env s, s.synced → Went (stageCall owner id layout mode flags payload)
      ⟨env, s, (commandDone lib .tcp packet env s).1, (commandDone lib .tcp packet env s).2⟩ :=
    fun env s hsync => command_went hlib .tcp owner id layout mode flags hpacket env hsync
  have honce := stageUntil_once hbusy hsend turns hsync
  obtain ⟨ended, hended, hbind⟩ := Option.map_eq_some_iff.mp h
  cases ended with
  | error e => cases hbind
  | ok between =>
      have hbetween : between.synced := honce.returned between hended
      obtain ⟨ls, core₁, now, hruns, hstage⟩ := stageUntil_runs hbusy hsend turns hsync hkind hended
      obtain ⟨hidle, -, hcursor, hjob, hoffer⟩ := stageCall_ok hstage
      have hcall := confirmStaged_call hlib hconfirm hbetween hbind
      obtain ⟨hstaged, hexecuting, happrove⟩ := confirm_ok hcall
      obtain ⟨ls', hmeantime⟩ := idle_runs between hlast
      obtain ⟨hsame, -⟩ := quiet_staged hmeantime hstaged
      rw [hsame] at hexecuting happrove
      exact ⟨ls, core₁, between.device.core, _, hruns, hidle, hcursor, hjob,
        (Machine.Runs.one trivial hoffer).append (Machine.Runs.one trivial happrove), hexecuting,
        confirmStaged_synced hlib hbetween hbind⟩

/-- The job of the Enter key. -/
theorem TextJob.enter {owner id layout mode : UInt32} {flags : UInt8} {j : StagedJob}
    (h : TextJob owner id layout mode flags [10] j) : j.strokes = [⟨0, 0x28⟩] := by
  obtain ⟨text, hbytes, -, hstrokes⟩ := h.text
  obtain rfl : text = ['\n'] := Lib.Utf8.encode_inj (hbytes.symm.trans (by decide))
  rw [hstrokes]
  rfl

/-- An errand that returns. For a session in step, every text, layout and
mode, and every number and timing of the turns, where nobody else commands
the core: if `exchange` returns, the core has first gone on with what it
was at, and then staged the text and had it confirmed at once. With Enter,
it has then taken strokes of the text, in order, and ended its job, before
it staged and was confirmed the Enter key; and unless the keyboard side
aborted, it has taken all of them. So Enter never overtakes the text. -/
theorem enter_follows_text (hlib : lib.Lawful) {x : Errand} {r : ErrandTurns} {s final : Ends}
    (hsync : s.synced)
    (hquiet : ∀ turn ∈ r.confirm :: r.enterConfirm :: (r.stage ++ r.enterStage),
      ∀ c ∈ turn.meanwhile, c.keyboards)
    (h : tcpExchange lib x r s = some (.ok final)) :
    ∃ pre core₁ j t, coreMachine.Runs (Asks CoreCall.keyboards) s.device.core pre core₁ ∧
      TextJob x.owner x.cmdId (wireLayout x.layout) (wireMode x.mode) 0 x.raw j ∧
      (x.enter = false → coreMachine.Runs (fun _ => True) core₁
        [.offer j, .approve (j.owner, j.id) t] final.device.core) ∧
      (x.enter = true → ∃ taken n k t', k.owner = x.owner ∧ k.id = x.enterId ∧
        k.strokes = [⟨0, 0x28⟩] ∧
        coreMachine.Runs (fun _ => True) core₁
          (.offer j :: .approve (j.owner, j.id) t :: (taken.map .take ++
            List.replicate (n + 1) .drop ++ [.offer k, .approve (k.owner, k.id) t']))
          final.device.core ∧
        taken <+: j.strokes ∧
        ((∀ turn ∈ r.enterStage, .abort ∉ turn.meanwhile) → taken = j.strokes ∧ n = 0)) := by
  unfold tcpExchange at h
  obtain ⟨packet, hpacket, h⟩ := Option.bind_eq_some_iff.mp h
  obtain ⟨confirm, hconfirm, h⟩ := Option.bind_eq_some_iff.mp h
  obtain ⟨first, hfirst, h⟩ := Option.bind_eq_some_iff.mp h
  have hmeantime : ∀ turn, turn ∈ r.stage ∨ turn = r.confirm ∨ turn ∈ r.enterStage ∨
      turn = r.enterConfirm → ∀ c ∈ turn.meanwhile, c.keyboards := by
    intro turn hturn
    refine hquiet turn ?_
    simp only [List.mem_cons, List.mem_append]
    rcases hturn with hturn | hturn | hturn | hturn
    · exact .inr (.inr (.inl hturn))
    · exact .inl hturn
    · exact .inr (.inr (.inr hturn))
    · exact .inr (.inl hturn)
  cases first with
  | error e => cases h
  | ok between =>
      obtain ⟨pre, core₁, staged, t, hpre, -, hcursor, hjob, hruns, hexecuting, hbetween⟩ :=
        @stageAndConfirm_runs lib CoreCall.keyboards hlib x.owner x.cmdId x.layout x.mode 0 x.raw
          packet confirm hpacket hconfirm _ _ _ _ hsync (fun turn ht => hmeantime turn (.inl ht))
          (hmeantime _ (.inr (.inl rfl))) hfirst
      refine ⟨pre, core₁, staged.job, t, hpre, hjob, fun henter => ?_, fun henter => ?_⟩
      · dsimp only at h
        rw [if_pos (by rw [henter]; decide)] at h
        cases h
        exact hruns
      · dsimp only at h
        rw [if_neg (by rw [henter]; decide)] at h
        obtain ⟨enter, hpacket', h⟩ := Option.bind_eq_some_iff.mp h
        obtain ⟨confirm', hconfirm', h⟩ := Option.bind_eq_some_iff.mp h
        obtain ⟨ls, core₂, staged', t', ⟨calls, hcalls, rfl, rfl⟩, hidle, -, hjob', hruns', -, -⟩ :=
          @stageAndConfirm_runs lib (fun c => c.keyboards ∧
              ((∀ turn ∈ r.enterStage, .abort ∉ turn.meanwhile) → c ≠ .abort)) hlib x.owner
            x.enterId x.layout 2 bridgeFlagAllowLf [10] enter confirm' hpacket' hconfirm' _ _ _ _
            hbetween (fun turn ht c hc => ⟨hmeantime turn (.inr (.inr (.inl ht))) c hc,
              fun hno heq => hno turn ht (heq ▸ hc)⟩) (hmeantime _ (.inr (.inr (.inr rfl)))) h
        have hstate : between.device.core.state = .executing := by rw [hexecuting]
        have hzero : between.device.core.cursor = 0 := by
          rw [hexecuting]
          exact hcursor
        have hremaining : between.device.core.remaining = staged.job.strokes := by
          rw [remaining_of_cursor_zero hzero, hexecuting]
          rfl
        obtain ⟨taken, n, htrace, hinitial, hall⟩ := typing_ends
          (fun c hc => ⟨(hcalls c hc).1, (hcalls c hc).2.1⟩) hstate (by omega) hidle
        rw [hremaining] at hinitial hall
        refine ⟨taken, n, staged'.job, t', hjob'.owner, hjob'.id, hjob'.enter, ?_, hinitial,
          fun hno => hall fun c hc => (hcalls c hc).2.2 hno⟩
        have hmiddle : coreMachine.Runs (fun _ => True) between.device.core
            (taken.map .take ++ List.replicate (n + 1) .drop)
            (coreMachine.final between.device.core calls) :=
          ⟨calls, fun _ _ => trivial, rfl, htrace⟩
        exact hruns.append (hmiddle.append hruns')

/-- One key and Enter: the Enter key is refused while the key is typed. -/
def benchErrand : Errand := ⟨7, 9, 10, 2, 1, [97], true⟩

def benchTurns : ErrandTurns where
  stage := [⟨[.tick 900], envAt 1000, false⟩]
  confirm := ⟨[], envAt 1000, false⟩
  enterStage := [⟨[.next 1000 false], envAt 1000, false⟩, ⟨[.next 1100 false], envAt 1100, false⟩]
  enterConfirm := ⟨[], envAt 1100, false⟩

theorem enter_follows_text_bench : ∃ final pre core₁ j t taken n k t',
    coreMachine.Runs (Asks CoreCall.keyboards) (countedDevice 0).core pre core₁ ∧
      k.strokes = [⟨0, 0x28⟩] ∧
      coreMachine.Runs (fun _ => True) core₁
        (.offer j :: .approve (j.owner, j.id) t :: (taken.map .take ++
          List.replicate (n + 1) .drop ++ [.offer k, .approve (k.owner, k.id) t']))
        (final : Ends).device.core ∧
      taken = j.strokes ∧ n = 0 := by
  have hreturns : (tcpExchange (toyCrypto none) benchErrand benchTurns
      ⟨countedHost 0, countedDevice 0⟩).elim false (·.isOk) = true := by decide +kernel
  rcases herrand : tcpExchange (toyCrypto none) benchErrand benchTurns
      ⟨countedHost 0, countedDevice 0⟩ with _ | _ | final
  · rw [herrand] at hreturns
    cases hreturns
  · rw [herrand] at hreturns
    cases hreturns
  · have hsync : Ends.synced ⟨countedHost 0, countedDevice 0⟩ := counted_synced 0
    obtain ⟨pre, core₁, j, t, hpre, -, -, henter⟩ := enter_follows_text toyCrypto_lawful hsync
      (by simp [benchTurns, CoreCall.keyboards]) herrand
    obtain ⟨taken, n, k, t', -, -, hkey, hruns, -, hall⟩ := henter rfl
    obtain ⟨htaken, hn⟩ := hall (by simp [benchTurns])
    exact ⟨final, pre, core₁, j, t, taken, n, k, t', hpre, hkey, hruns, htaken, hn⟩

end PicoBridge
