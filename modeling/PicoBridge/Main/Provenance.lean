/-
Who has typed: every keystroke of the loop, traced to the two commands
that are responsible for it.

# The statement

A press report is the next stroke of a text that one command staged and
another one confirmed, in time (`keystrokes_commanded`). Both frames were
sealed for the session they came to, and the session's slot of the roster
meant the key that had authenticated (`Authorised`). Between the two
commands and the press nothing else is done to the core: whatever other
commands arrive is refused, and nothing of another job is typed.

# The argument

The keyboard side knows the job (`press_origin`, through `main_usb`), and
every event of the core that opens or approves one is a command's
(`events_sourced`), since the calls that the keyboard side makes itself
do neither.
-/
import PicoBridge.Core.Typing
import PicoBridge.Link.Insertion
import PicoBridge.Main.Refinement

namespace PicoBridge

open Lib (Machine)
open Lib.Utf8 (encode)

variable (lib : Crypto)

-- ============================================================= the commands

/-- A command of an enrolled controller: its frame was sealed for the
session, and the session's slot means the key that authenticated. -/
structure Authorised (c : Command) : Prop where
  session : c.before.noise.ready = true
  sealing : SealedUnder lib c.before.noise.receiveKey c.before.noise.receiveNonce c.call.data
  opens : framePlaintext lib c.before.noise c.call.data = some c.plaintext
  enrolled : ∃ key, c.key = some key ∧ SlotMeans c.before key

/-- A STAGE of a text, as a job. -/
structure StagesText (c : Command) (j : StagedJob) (layout mode : UInt32) (flags : UInt8)
    (text : List Char) : Prop where
  frame : ∃ utf8 length, commandCall c.plaintext
      = some (.stage j.owner j.id layout mode flags utf8 length) ∧
    inputBytes utf8 length = encode text
  typable : TypableText layout mode flags text
  strokes : j.strokes = (newlineText text).flatMap (typed layout)
  clock : j.stagedAtMs = c.call.env.bleNowMs
  ttl : j.ttlMs = bridgeTtlMs

/-- A CONFIRM of a job, at a clock value. -/
structure Confirms (c : Command) (key : UInt32 × UInt32) (nowMs : UInt32) : Prop where
  frame : commandCall c.plaintext = some (.confirm key.1 key.2)
  clock : nowMs = c.call.env.bleNowMs

/-- An event that opens a job or approves one has a command for it. -/
def MainEvent.Sourced (e : MainEvent) : Prop :=
  (∀ j, e.event = .core (.offer j) → ∃ c, e.command = some c ∧ Authorised lib c ∧
    ∃ layout mode flags text, StagesText c j layout mode flags text) ∧
  ∀ key nowMs, e.event = .core (.approve key nowMs) →
    ∃ c, e.command = some c ∧ Authorised lib c ∧ Confirms c key nowMs

-- ============================================================== the labels

variable {lib}

/-- A command's call of the core. -/
theorem coreCall_stages {call : TransportCall} {nowMs : UInt32}
    {owner id layout mode : UInt32} {flags : UInt8} {utf8 : Option (List UInt8)} {length : Nat}
    {stagedMs ttlMs : UInt32}
    (h : call.coreCall nowMs = .stage owner id layout mode flags utf8 length stagedMs ttlMs) :
    ∃ input, utf8 = some input ∧ call = .stage owner id layout mode flags input length ∧
      stagedMs = nowMs ∧ ttlMs = bridgeTtlMs := by
  cases call with
  | stage =>
      cases h
      exact ⟨_, rfl, rfl, rfl, rfl⟩
  | _ => cases h

theorem coreCall_confirms {call : TransportCall} {nowMs confirmedMs : UInt32}
    {owner id : UInt32} (h : call.coreCall nowMs = .confirm owner id confirmedMs) :
    call = .confirm owner id ∧ confirmedMs = nowMs := by
  cases call with
  | confirm =>
      cases h
      exact ⟨rfl, rfl⟩
  | _ => cases h

-- ============================================================== the sources

/-- The command of a frame that opens in a session that means something. -/
theorem authorised_of_opens (hlib : lib.OpensSealed) {d : Device} {key : Option Key} {c : Call}
    {p : List UInt8} (hmeans : Means (.on d, key))
    (hopens : framePlaintext lib d.noise c.data = some p) : Authorised lib ⟨d, key, c, p⟩ := by
  have hready : d.noise.ready = true := by
    obtain ⟨-, -, -, noise, hopen, -⟩ := framePlaintext_iff.mp hopens
    exact decryptPacket_ready hopen
  exact ⟨hready, open_sealed hlib hopens, hopens, hmeans d rfl hready⟩

/-- Every event of a call has its source. -/
theorem callEvents_sourced (hlib : lib.OpensSealed) {d : Device} {key : Option Key}
    (hmeans : Means (.on d, key)) (c : Call) :
    ∀ e ∈ callEvents lib d key c, MainEvent.Sourced lib e := by
  intro e he
  unfold callEvents at he
  cases hopens : framePlaintext lib d.noise c.data with
  | none =>
      rw [hopens] at he
      exact absurd he List.not_mem_nil
  | some p =>
      cases hcall : commandCall p with
      | none =>
          simp only [hopens, hcall] at he
          exact absurd he List.not_mem_nil
      | some call =>
          simp only [hopens, hcall] at he
          obtain ⟨l, hl, rfl⟩ := List.mem_map.mp he
          have hauthorised := authorised_of_opens hlib hmeans hopens
          constructor
          · intro j hj
            obtain rfl := UsbEvent.core.inj hj
            obtain ⟨owner, id, layout, mode, flags, utf8, length, nowMs, ttlMs, hstage, hok, rfl⟩ :=
              coreLabels_offer hl
            obtain ⟨input, rfl, rfl, rfl, rfl⟩ := coreCall_stages hstage
            rw [hstage] at hok ⊢
            obtain ⟨text, hbytes, htypable, hstrokes⟩ := stage_accepted (Option.some.inj hok)
            exact ⟨_, rfl, hauthorised, layout, mode, flags, text,
              ⟨input, length, hcall, hbytes⟩, htypable, hstrokes, rfl, rfl⟩
          · intro k nowMs hk
            obtain rfl := UsbEvent.core.inj hk
            obtain ⟨rfl, rfl⟩ := coreCall_confirms (coreLabels_approve hl)
            exact ⟨_, rfl, hauthorised, hcall, rfl⟩

theorem means_call (keys : HeaderKeys) {s : Device × Option Key} (h : Means (.on s.1, s.2))
    (c : Call) :
    Means (.on ((commandMachine lib).step s c).1.1, ((commandMachine lib).step s c).1.2) :=
  @means_frame lib keys s.1 s.2 h c.env c.data

/-- So has every event of a step of the loop. -/
theorem mainStep_sourced (hlib : lib.OpensSealed) (keys : HeaderKeys) {m : Firmware}
    (hmeans : Means (.on m.device, m.key)) (i : MainInput) :
    ∀ e ∈ (mainStep lib m i).2, MainEvent.Sourced lib e := by
  rcases mainStep_cases lib m i with ⟨j, own, h⟩ | ⟨arrivals, netPoll, -, -, h⟩ | ⟨-, -, h⟩
  · rw [h]
    intro e he
    obtain ⟨event, hevent, rfl⟩ := List.mem_map.mp he
    obtain ⟨calls, hcalls, -, htrace⟩ := usbStep_drives m.usb own
    have hlabel : ∀ l, event = .core l →
        l ∈ coreMachine.trace m.usb.core (calls.map (false, ·)) := by
      rintro l rfl
      rw [htrace]
      exact List.mem_filterMap.mpr ⟨_, hevent, rfl⟩
    constructor
    · intro j hj
      exact absurd rfl ((keyboards_labels hcalls (hlabel _ hj)).1 j)
    · intro key nowMs hkey
      exact absurd rfl ((keyboards_labels hcalls (hlabel _ hkey)).2 key nowMs)
  · rw [h]
    exact ((commandMachine lib).forall_trace_iff (G := fun _ _ => True)
      (I := fun s => Means (.on s.1, s.2)) (fun s c hs => means_call keys hs c)
      (fun s c hs => iff_of_true (callEvents_sourced hlib hs c) trivial) hmeans _).mpr
      ((commandMachine lib).stepsMeet_true _ _)
  · rw [h]
    exact fun e he => absurd he List.not_mem_nil

theorem mainStep_means (keys : HeaderKeys) {m : Firmware} (hmeans : Means (.on m.device, m.key))
    (i : MainInput) :
    Means (.on (mainStep lib m i).1.device, (mainStep lib m i).1.key) := by
  rw [← mainStep_happens keys m i]
  exact (witnessMachine lib keys).final_inv (P := Means) (fun _ h hm => means_step hm h) hmeans _

/-- So has every event of a run. -/
theorem events_sourced (hlib : lib.OpensSealed) (keys : HeaderKeys) {m : Firmware}
    (hmeans : Means (.on m.device, m.key)) (is : List MainInput) :
    ∀ e ∈ (mainMachine lib).trace m is, MainEvent.Sourced lib e :=
  ((mainMachine lib).forall_trace_iff (G := fun _ _ => True)
    (I := fun m => Means (.on m.device, m.key)) (fun _ i hm => mainStep_means keys hm i)
    (fun _ i hm => iff_of_true (mainStep_sourced hlib keys hm i) trivial) hmeans is).mpr
    ((mainMachine lib).stepsMeet_true m is)

-- ================================================================ the start

/-- A device that `main` has set up. -/
theorem boot_ready {keys : HeaderKeys} {w : Power} {seedExec importExec : FlashExec} {d : Device}
    (hboot : bootPower lib keys w seedExec importExec = .on d) :
    d.core = bridgeCoreInit ∧ Means (.on d, (none : Option Key)) := by
  constructor
  · unfold bootPower at hboot
    split at hboot
    · cases hboot
      rfl
    · cases hboot
  · intro d' hd' hready
    cases Power.on.inj hd'
    rw [bootPower_ready hboot] at hready
    cases hready

theorem firmwareInit_usb {d : Device} (hcore : d.core = bridgeCoreInit) :
    (firmwareInit d).usb = usbMainInit := by
  show ({ usbMainInit with core := d.core } : UsbMain) = usbMainInit
  rw [hcore]
  rfl

-- ========================================================== the provenance

variable (lib) in
/-- The two commands behind a job that is typed in `during`: one staged it
and one confirmed it in time, both of them authorised, and nothing was
done to the core since but strokes taken. -/
structure Commanded (pre : List MainEvent) (stage confirm : Command) (j : StagedJob)
    (nowMs : UInt32) (before between during : List MainEvent) : Prop where
  events : pre = before ++ ⟨.core (.offer j), some stage⟩ ::
    (between ++ ⟨.core (.approve (j.owner, j.id) nowMs), some confirm⟩ :: during)
  staged : Authorised lib stage
  confirmed : Authorised lib confirm
  confirms : Confirms confirm (j.owner, j.id) nowMs
  inTime : nowMs - j.stagedAtMs < j.ttlMs
  between : ∀ l, .core l ∉ between.map MainEvent.event
  during : ∀ l, .core l ∈ during.map MainEvent.event → ∃ stroke, l = .take stroke

/-- The keystrokes of a text. -/
def presses (layout : UInt32) (text : List Char) : List HidReport :=
  ((newlineText text).flatMap (typed layout)).map BridgeStroke.press

/-- An event with a label, found in what is seen of it. -/
theorem map_event_split {es : List MainEvent} {xs ys : List UsbEvent} {x : UsbEvent}
    (h : es.map MainEvent.event = xs ++ x :: ys) :
    ∃ before c after, es = before ++ ⟨x, c⟩ :: after ∧ before.map MainEvent.event = xs ∧
      after.map MainEvent.event = ys := by
  obtain ⟨before, rest, rfl, hbefore, hrest⟩ := List.map_eq_append_iff.mp h
  obtain ⟨e, after, rfl, rfl, hafter⟩ := List.map_eq_cons_iff.mp hrest
  exact ⟨before, e.command, after, rfl, hbefore, hafter⟩

/-- The history of a job, with its commands. -/
theorem commanded_of_history {pre : List MainEvent} {j : StagedJob} {nowMs : UInt32}
    {before between during : List UsbEvent}
    (hsourced : ∀ e ∈ pre, MainEvent.Sourced lib e)
    (h : JobHistory (pre.map MainEvent.event) j nowMs before between during) :
    ∃ stage confirm layout mode flags text before between during',
      Commanded lib pre stage confirm j nowMs before between during' ∧
        StagesText stage j layout mode flags text ∧
        during'.map MainEvent.event = during := by
  obtain ⟨before, opened, rest, rfl, -, hrest⟩ := map_event_split h.events
  obtain ⟨between, approved, during, rfl, rfl, hduring⟩ := map_event_split hrest
  obtain ⟨stage, hopened, hstage, layout, mode, flags, text, hstages⟩ :=
    (hsourced ⟨.core (.offer j), opened⟩ (by simp)).1 j rfl
  obtain ⟨confirm, happroved, hconfirm, hconfirms⟩ :=
    (hsourced ⟨.core (.approve (j.owner, j.id) nowMs), approved⟩ (by simp)).2 _ _ rfl
  obtain rfl : opened = some stage := hopened
  obtain rfl : approved = some confirm := happroved
  refine ⟨stage, confirm, layout, mode, flags, text, before, between, during,
    ⟨rfl, hstage, hconfirm, hconfirms, h.inTime, ?_, ?_⟩, hstages, hduring⟩
  · intro l hl
    have hmem : l ∈ coreLabelsOf (between.map MainEvent.event) :=
      List.mem_filterMap.mpr ⟨_, hl, rfl⟩
    rw [h.between] at hmem
    cases hmem
  · intro l hl
    obtain ⟨taken, htaken⟩ := h.during
    rw [hduring] at hl
    have hmem : l ∈ coreLabelsOf _ := List.mem_filterMap.mpr ⟨_, hl, rfl⟩
    rw [htaken] at hmem
    obtain ⟨stroke, -, rfl⟩ := List.mem_map.mp hmem
    exact ⟨stroke, rfl⟩

/-- What a run of the loop looks like from the keyboard side, up to one of
its events. -/
theorem main_events {keys : HeaderKeys} {w : Power} {seedExec importExec : FlashExec} {d : Device}
    (hboot : bootPower lib keys w seedExec importExec = .on d) (is : List MainInput)
    {pre post : List MainEvent} {e : MainEvent}
    (hsplit : (mainMachine lib).trace (firmwareInit d) is = pre ++ e :: post) :
    ∃ js, usbMachine.trace usbMainInit js
      = pre.map MainEvent.event ++ e.event :: post.map MainEvent.event := by
  obtain ⟨js, -, htrace⟩ := @main_usb lib (firmwareInit d) is
  rw [firmwareInit_usb (boot_ready hboot).1, hsplit, List.map_append, List.map_cons] at htrace
  exact ⟨js, htrace⟩

theorem pre_sourced (hlib : lib.OpensSealed) {keys : HeaderKeys} {w : Power}
    {seedExec importExec : FlashExec} {d : Device}
    (hboot : bootPower lib keys w seedExec importExec = .on d) (is : List MainInput)
    {pre post : List MainEvent}
    (hsplit : (mainMachine lib).trace (firmwareInit d) is = pre ++ post) :
    ∀ e ∈ pre, MainEvent.Sourced lib e := by
  intro e he
  refine events_sourced hlib keys (m := firmwareInit d) (boot_ready hboot).2 is e ?_
  rw [hsplit]
  exact List.mem_append_left post he

/-- STAGE of "ab" by owner 7, id 1. -/
def pairFrame : List UInt8 := [1, 7, 0, 0, 0, 1, 0, 0, 0, 1, 1, 0, 2, 0, 97, 98]

/-- The recovery admin's session, a job of two keys, and its typing. -/
def typingRun : List MainInput :=
  [.usb (.tudTask [.mount] 1000) (by simp), .usb (.ready true) (by simp),
    .asyncPoll [wholeWrite genuineHello, wholeWrite (sealedAt 0 pairFrame),
      wholeWrite (sealedAt 1 [2, 7, 0, 0, 0, 1, 0, 0, 0])] none,
    .usb (.tudTask [] 1010) (by simp), .usb (.ready true) (by simp), .usb (.report true) (by simp),
    .usb (.ready true) (by simp), .usb (.ready true) (by simp), .usb (.report true) (by simp),
    .usb (.ready true) (by simp), .usb (.report true) (by simp),
    .usb (.ready true) (by simp), .usb (.ready true) (by simp), .usb (.report true) (by simp),
    .usb (.ready true) (by simp)]

theorem typingRun_events :
    ((mainMachine veiledCrypto).trace (firmwareInit veiledBench) typingRun).map MainEvent.event
      = [.core (.offer ⟨7, 1, 1000, bridgeTtlMs, [⟨0, 4⟩, ⟨0, 5⟩]⟩),
          .core (.approve (7, 1) 1000),
          .core (.take ⟨0, 4⟩), .report (⟨0, 4⟩ : BridgeStroke).press true, .report released true,
          .core (.take ⟨0, 5⟩), .report (⟨0, 5⟩ : BridgeStroke).press true, .report released true,
          .completed, .core .drop] := by
  decide +kernel

/-- Who has typed. In every run of `main`'s loop on a device that has
booted, whatever arrives on the transports and however the endpoint
answers, a press report is the next keystroke of a text that an authorised
command staged and an authorised command confirmed, less than its ttl
later; all of the text's earlier keystrokes were offered since then, and
nothing else was done to the core. -/
theorem keystrokes_commanded (hlib : lib.OpensSealed) {keys : HeaderKeys} {w : Power}
    {seedExec importExec : FlashExec} {d : Device}
    (hboot : bootPower lib keys w seedExec importExec = .on d) (is : List MainInput)
    {pre post : List MainEvent} {e : MainEvent} {r : HidReport}
    (hsplit : (mainMachine lib).trace (firmwareInit d) is = pre ++ e :: post)
    (hpress : e.event.press? = some r) :
    ∃ stage confirm j layout mode flags text nowMs before between during,
      Commanded lib pre stage confirm j nowMs before between during ∧
        StagesText stage j layout mode flags text ∧
        ∃ rest, presses layout text
          = offeredPresses (during.map MainEvent.event) ++ r :: rest := by
  obtain ⟨js, htrace⟩ := main_events hboot is hsplit
  obtain ⟨j, nowMs, _, _, during, hhistory, rest, hstrokes⟩ := press_origin htrace hpress
  obtain ⟨stage, confirm, layout, mode, flags, text, before, between, during, hcommanded,
    hstages, rfl⟩ := commanded_of_history (pre_sourced hlib hboot is hsplit) hhistory
  rw [hstages.strokes] at hstrokes
  exact ⟨stage, confirm, j, layout, mode, flags, text, nowMs, before, between, during,
    hcommanded, hstages, rest, hstrokes⟩

/-- The second key of that run. -/
theorem keystrokes_commanded_bench :
    ∃ pre e post, (mainMachine veiledCrypto).trace (firmwareInit veiledBench) typingRun
        = pre ++ e :: post ∧
      ∃ stage confirm j layout mode flags text nowMs before between during,
        Commanded veiledCrypto pre stage confirm j nowMs before between during ∧
          StagesText stage j layout mode flags text ∧
          ∃ rest, presses layout text
            = offeredPresses (during.map MainEvent.event) ++ ⟨0, [5, 0, 0, 0, 0, 0]⟩ :: rest := by
  obtain ⟨pre, c, post, hsplit, -⟩ := @map_event_split _ [_, _, _, _, _, _] _ _ typingRun_events
  have hpress : UsbEvent.press? (.report (⟨0, 5⟩ : BridgeStroke).press true)
      = some ⟨0, [5, 0, 0, 0, 0, 0]⟩ := by decide
  exact ⟨pre, _, post, hsplit,
    keystrokes_commanded veiled_opensSealed veiled_boots typingRun hsplit hpress⟩

/-- What has been typed. When the loop reports a job complete, the press
reports offered to the endpoint since its confirmation are the whole text
of the command that staged it, and those that the endpoint accepted are
the text exactly when it refused none. -/
theorem completed_text (hlib : lib.OpensSealed) {keys : HeaderKeys} {w : Power}
    {seedExec importExec : FlashExec} {d : Device}
    (hboot : bootPower lib keys w seedExec importExec = .on d) (is : List MainInput)
    {pre post : List MainEvent} {e : MainEvent}
    (hsplit : (mainMachine lib).trace (firmwareInit d) is = pre ++ e :: post)
    (hcompleted : e.event = .completed) :
    ∃ stage confirm j layout mode flags text nowMs before between during,
      Commanded lib pre stage confirm j nowMs before between during ∧
        StagesText stage j layout mode flags text ∧
        offeredPresses (during.map MainEvent.event) = presses layout text ∧
        (acceptedPresses (during.map MainEvent.event) = presses layout text ↔
          ∀ r, r ≠ released → .report r false ∉ during.map MainEvent.event) := by
  obtain ⟨js, htrace⟩ := main_events hboot is hsplit
  rw [hcompleted] at htrace
  obtain ⟨j, nowMs, _, _, during, hhistory, hstrokes⟩ := completed_origin htrace
  obtain ⟨stage, confirm, layout, mode, flags, text, before, between, during, hcommanded,
    hstages, rfl⟩ := commanded_of_history (pre_sourced hlib hboot is hsplit) hhistory
  rw [hstages.strokes] at hstrokes
  refine ⟨stage, confirm, j, layout, mode, flags, text, nowMs, before, between, during,
    hcommanded, hstages, hstrokes.symm, ?_⟩
  rw [presses, hstrokes]
  exact acceptedPresses_eq_iff _

/-- The job of that run. -/
theorem completed_text_bench :
    ∃ pre e post, (mainMachine veiledCrypto).trace (firmwareInit veiledBench) typingRun
        = pre ++ e :: post ∧
      ∃ stage confirm j layout mode flags text nowMs before between during,
        Commanded veiledCrypto pre stage confirm j nowMs before between during ∧
          StagesText stage j layout mode flags text ∧
          offeredPresses (during.map MainEvent.event) = presses layout text ∧
          (acceptedPresses (during.map MainEvent.event) = presses layout text ↔
            ∀ r, r ≠ released → .report r false ∉ during.map MainEvent.event) := by
  obtain ⟨pre, c, post, hsplit, -⟩ :=
    @map_event_split _ [_, _, _, _, _, _, _, _] _ _ typingRun_events
  exact ⟨pre, _, post, hsplit,
    completed_text veiled_opensSealed veiled_boots typingRun hsplit rfl⟩

end PicoBridge
