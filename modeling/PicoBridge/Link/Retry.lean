/-
Staging while the device types: the loops of `send_stage_until_idle`
(`tools/pico_bridge_ctl.py`, over BLE) and `stage_and_confirm`
(`tools/pico_tcp_send.py`, over TCP), against the device.

# What is modelled how

- A carrier without loss is `command_process_frame` on the frame that the
  host sealed, and its response read back (`Carrier.readBack`; that both
  links are this is `transports_agree`).
- The clock is a reading: whether the deadline has passed when a turn's
  exception is caught. Between two turns the core has any calls, so a job
  that is typed may end at any point.
- A loop that is still going has no result yet.

# The argument

A host in step with the device either verifies the status of its own
command, and is in step again, or raises something that the loop does not
take for BUSY (`command_cases`). Of the statuses of a stage only BUSY is
retried, and it leaves the core as it is.
-/
import PicoBridge.Core.Atomic
import PicoBridge.Core.Job
import PicoBridge.Link.Commands

namespace PicoBridge

open Lib.Machine (singleton_split)

-- =============================================================== a command

/-- What carries the frames of a session. -/
inductive Carrier
  | ble
  | tcp
  deriving DecidableEq, Repr

/-- What the host reads: the value of the characteristic, or the frame
that `_recv_frame` waits for, which is none where that raises. -/
def Carrier.readBack : Carrier → Option (List UInt8) → Option (List UInt8)
  | .ble, resp => some ((resp.map bleValue).getD [])
  | .tcp, resp => resp

/-- What the host's functions raise: an error of its session, an exception
of the socket, the `SystemExit` for a confirm that is refused. -/
inductive CommandError
  | session (e : HostError)
  | carrier
  | systemExit (status : UInt8)
  deriving DecidableEq, Repr

/-- The two ends of a session. -/
structure Ends where
  host : NoiseIKInitiator
  device : Device

def Ends.synced (s : Ends) : Prop := Synced s.host s.device.noise

variable (lib : Crypto)

/-- The receipt of a command: it is read and verified. -/
def readReceipt (via : Carrier) (resp : Option (List UInt8)) (s : Ends) :
    Except CommandError UInt8 × Ends :=
  match via.readBack resp with
  | none => (.error .carrier, s)
  | some value =>
      match verifyTransportAck lib value s.host with
      | .error e host => (.error (.session e), { s with host := host })
      | .ok status host => (.ok status, { s with host := host })

/-- `NoiseTcpSession.command`, and `send_command` in a session. -/
def command (via : Carrier) (packet : List UInt8) (env : FrameEnv) (s : Ends) :
    Except CommandError UInt8 × Ends :=
  match encryptPacket lib packet s.host with
  | .error e host => (.error (.session e), { s with host := host })
  | .ok frame host =>
      let c := commandProcessFrame lib s.device env frame bridgeTransportResponseMax
      readReceipt lib via c.1 ⟨host, c.2⟩

/-- A command whose status, which is 0, is dropped. -/
def commandDone (via : Carrier) (packet : List UInt8) (env : FrameEnv) (s : Ends) :
    Except CommandError Unit × Ends :=
  let r := command lib via packet env s
  (r.1.map fun _ => (), r.2)

/-- `send_command`: outside of a session the packet is written as it is,
and nothing is read. -/
def sendCommand (packet : List UInt8) (env : FrameEnv) (s : Ends) :
    Except CommandError Unit × Ends :=
  if s.host.isReady then commandDone lib .ble packet env s
  else
    let c := commandProcessFrame lib s.device env packet bridgeTransportResponseMax
    (.ok (), { s with device := c.2 })

/-- `_recv_frame`, on what the device sends; none where it raises. -/
def recvFrame (stream : List UInt8) : Option (List UInt8) :=
  if stream.length < 4 then none
  else
    let length := be32Of stream
    if ¬(1 ≤ length ∧ length ≤ 65535) then none
    else if stream.length < 4 + length then none
    else some ((stream.drop 4).take length)

-- =============================================================== the loops

/-- `"status=4" in str(exc)`, where `exc` is caught. -/
def CommandError.saysBusy : CommandError → Prop
  | .session e => "status=4".toList <:+: e.text.toList
  | _ => False

instance : DecidablePred CommandError.saysBusy
  | .session _ => inferInstanceAs (Decidable (_ <:+: _))
  | .carrier => inferInstanceAs (Decidable False)
  | .systemExit _ => inferInstanceAs (Decidable False)

/-- What a turn meets: the calls that the core has had in the meantime,
what its frame meets, and whether the deadline has passed behind it. -/
structure Turn where
  meanwhile : List CoreCall
  env : FrameEnv
  late : Bool

/-- The ends once the core has had some calls. -/
def Ends.idle (s : Ends) (calls : List CoreCall) : Ends :=
  { s with device := { s.device with
      core := calls.foldl (fun core call => (coreOp core call).2) s.device.core } }

/-- A turn, as it went. -/
structure Attempt where
  env : FrameEnv
  before : Ends
  outcome : Except CommandError Unit
  after : Ends

/-- The `while True` of both: the attempts, and how it ends. -/
def stageUntil (send : FrameEnv → Ends → Except CommandError Unit × Ends) :
    List Turn → Ends → List Attempt × Option (Except CommandError Ends)
  | [], _ => ([], none)
  | turn :: turns, s =>
      let before := s.idle turn.meanwhile
      let r := send turn.env before
      let attempt := ⟨turn.env, before, r.1, r.2⟩
      match r.1 with
      | .ok () => ([attempt], some (.ok r.2))
      | .error e =>
          if e.saysBusy ∧ ¬turn.late then
            let rest := stageUntil send turns r.2
            (attempt :: rest.1, rest.2)
          else ([attempt], some (.error e))

/-- `send_stage_until_idle`. -/
def sendStageUntilIdle (packet : List UInt8) (turns : List Turn) (s : Ends) :
    List Attempt × Option (Except CommandError Ends) :=
  stageUntil (sendCommand lib packet) turns s

/-- The confirm of `stage_and_confirm`. -/
def confirmStaged (confirm : List UInt8) (turn : Turn) (s : Ends) : Except CommandError Ends :=
  let r := command lib .tcp confirm turn.env (s.idle turn.meanwhile)
  match r.1 with
  | .ok status => if status ≠ 0 then .error (.systemExit status) else .ok r.2
  | .error e => .error e

/-- `stage_and_confirm`, with the turn of its confirm. -/
def stageAndConfirm (packet confirm : List UInt8) (turns : List Turn) (last : Turn) (s : Ends) :
    List Attempt × Option (Except CommandError Ends) :=
  let loop := stageUntil (commandDone lib .tcp packet) turns s
  (loop.1, loop.2.map fun ended => ended.bind (confirmStaged lib confirm last))

-- =============================================================== the links

/-- Over BLE the host reads the characteristic. -/
theorem BleDone.readBack {env : FrameEnv} {d : Device} {frame : List UInt8} {es : List BleEvent}
    {l : BleLink} (h : BleDone lib env d frame es l) :
    Carrier.ble.readBack (commandProcessFrame lib d env frame bridgeTransportResponseMax).1
      = some (l.cmdCharRead.getD []) := by
  rw [h.cmdCharRead]
  rfl

theorem response_ne_nil {d d' : Device} {env : FrameEnv} {data resp : List UInt8} {cap : Nat}
    (h : commandProcessFrame lib d env data cap = (some resp, d')) : resp ≠ [] := by
  unfold commandProcessFrame processNoise processEncrypted sendReceipt at h
  dsimp only at h
  repeat' split at h
  all_goals
    cases h
    try exact List.cons_ne_nil _ _

/-- Over TCP it receives a frame. -/
theorem NetDone.readBack (hlib : lib.Lawful) {env : FrameEnv} {d : Device} {frame : List UInt8}
    {es : List NetEvent} {n : NetEndpoint} (h : NetDone lib env d frame es n) :
    Carrier.tcp.readBack (commandProcessFrame lib d env frame bridgeTransportResponseMax).1
      = recvFrame (sentIn es ++ n.netPendingTx) := by
  rw [h.sent]
  cases hc : commandProcessFrame lib d env frame bridgeTransportResponseMax with
  | mk resp d' =>
      cases resp with
      | none => rfl
      | some resp =>
          have hlong := response_length lib hlib hc
          have hpos := List.length_pos_iff.mpr (response_ne_nil lib hc)
          unfold bleCmdBufMax noiseIkMaxPlaintext at hlong
          have hhead := be32_length resp.length
          have hvalue : be32Of (be32 resp.length ++ resp) = resp.length := by
            rw [← be32Of_take, List.take_left' hhead, be32Of_be32 (by omega)]
          show some resp = recvFrame (be32 resp.length ++ resp)
          unfold recvFrame
          dsimp only
          rw [hvalue, List.length_append, hhead, if_neg (by omega), if_neg (by omega),
            if_neg (by omega), List.drop_left' hhead, List.take_length]

-- ============================================================== one command

variable {lib}

/-- An error that is not a status. -/
def CommandError.unanswered (e : CommandError) : Prop := ∀ status, e ≠ .session (.rejected status)

/-- Only a status is taken for BUSY. -/
theorem CommandError.unanswered.not_busy {e : CommandError} (h : e.unanswered) : ¬e.saysBusy := by
  cases e with
  | session e =>
      cases e with
      | rejected status => exact absurd rfl (h status)
      | _ => decide
  | carrier => exact not_false
  | systemExit status => exact not_false

/-- A bridge status is taken for BUSY where it is. -/
theorem saysBusy_iff (st : BridgeStatus) :
    (CommandError.session (.rejected st.toByte)).saysBusy ↔ st = .errBusy := by
  cases st <;> decide

/-- Where the device does not answer, the host raises. -/
theorem readReceipt_none (via : Carrier) (s : Ends) :
    ∃ e, (readReceipt lib via none s).1 = .error e ∧ e.unanswered := by
  cases via with
  | tcp => exact ⟨.carrier, rfl, fun status h => (by cases h)⟩
  | ble =>
      have hmissing : verifyTransportAck lib [] s.host = .error .missingReceipt s.host := by
        unfold verifyTransportAck
        split
        · rw [if_pos (.inl (by decide))]
        · rfl
      refine ⟨.session .missingReceipt, ?_, fun status h => (by cases h)⟩
      unfold readReceipt
      rw [show Carrier.readBack .ble none = some [] from rfl]
      dsimp only
      rw [hmissing]

/-- What the host reads of a receipt. -/
theorem readReceipt_some (via : Carrier) (receipt : List UInt8) (s : Ends) :
    readReceipt lib via (some (bleCmdEncrypted :: receipt)) s
      = match verifyTransportAck lib (cmdEncrypted :: receipt) s.host with
        | .error e host => (.error (.session e), { s with host := host })
        | .ok status host => (.ok status, { s with host := host }) := by
  cases via <;> rfl

/-- A frame that the device does not open is ignored. -/
theorem sealed_ignored (hlib : lib.Lawful) {host host' : NoiseIKInitiator} {d : Device}
    {packet frame : List UInt8} (hseal : encryptPacket lib packet host = .ok frame host')
    (hclosed : ¬packet.length ≤ noiseIkMaxPlaintext ∨ d.noise.receiveNonce = uint64Max)
    (env : FrameEnv) (respCap : Nat) : commandProcessFrame lib d env frame respCap = (none, d) := by
  obtain ⟨hlength, hhead⟩ := sealed_shape hlib hseal
  obtain ⟨rest, rfl⟩ := List.head?_eq_some_iff.mp hhead
  rcases frame_cases lib d env (cmdEncrypted :: rest) respCap with
    ⟨hignored, -⟩ | ⟨hhandshake, -⟩ | ⟨p, d₁, ⟨-, -, noise, hopen, -⟩, -⟩
  · exact hignored
  · exact absurd hhandshake.1 (show cmdEncrypted ≠ bleCmdNoise by decide)
  · exfalso
    rcases hclosed with hlong | hmax
    · rw [List.length_cons] at hlength
      have hbound := decryptPacket_fits hopen
      rw [show (cmdEncrypted :: rest).drop 1 = rest from rfl] at hbound
      rw [show noiseIkTransportOverhead = 24 from rfl] at hbound
      omega
    · exact (decryptPacket_ok hopen).1 hmax

/-- A command in step: its status is verified and the ends are in step
again, or the host raises something else. -/
theorem command_cases (hlib : lib.Lawful) (via : Carrier) (packet : List UInt8) (env : FrameEnv)
    {s : Ends} (hsync : s.synced) :
    let r := command lib via packet env s
    (packet.length ≤ noiseIkMaxPlaintext ∧ r.2.synced ∧ ∃ d',
        bleHandleAuthenticatedCommand s.device.received env packet = (true, d') ∧
        r.2.device.core = d'.core ∧
        r.1 = if d'.cmdAckStatus ≠ 0 then .error (.session (.rejected d'.cmdAckStatus))
          else .ok d'.cmdAckStatus) ∨
      ∃ e, r.1 = .error e ∧ e.unanswered := by
  obtain ⟨frame, host', hseal⟩ := encryptPacket_returns hlib hsync.isReady hsync.sending packet
  have hhost := encryptPacket_ok hseal
  unfold command
  rw [hseal]
  dsimp only
  by_cases hopens : packet.length ≤ noiseIkMaxPlaintext ∧ s.device.noise.receiveNonce ≠ uint64Max
  · obtain ⟨frame₁, host₁, hseal₁, -, hdispatch⟩ :=
      sealed_dispatches hlib hsync hopens.2 hopens.1
    rw [hseal] at hseal₁
    cases hseal₁
    rw [frame_dispatched hdispatch, afterCommand]
    have hnoise := (command_effect s.device.received env packet).noise
    generalize bleHandleAuthenticatedCommand s.device.received env packet = c at hnoise ⊢
    obtain ⟨due, d'⟩ := c
    dsimp only at hnoise ⊢
    cases due with
    | false => exact .inr (readReceipt_none via _)
    | true =>
        unfold sendReceipt
        rw [if_neg (not_not.mpr rfl)]
        cases hack : noiseEncryptTransportAck lib d'.cmdAckStatus
            (bridgeTransportResponseMax - 1) d'.noise with
        | error e noise => exact .inr (readReceipt_none via _)
        | ok receipt noise =>
            obtain ⟨hmax, rfl⟩ := encryptAck_ok hack
            have hready : host'.isReady = true := by
              rw [hhost]
              exact hsync.isReady
            have hkey : host'.receiveKey = some d'.noise.sendKey := by
              rw [hhost, hnoise]
              exact hsync.toHost
            have hcount : host'.receiveNonce = d'.noise.sendNonce.toNat := by
              rw [hhost, hnoise]
              exact hsync.receiving
            have hverify := verifyAck_encryptAck hlib hready hkey hcount hack
            have hstep : Synced { host' with receiveNonce := host'.receiveNonce + 1 }
                { d'.noise with sendNonce := d'.noise.sendNonce + 1 } := by
              refine ⟨?_, ?_, hkey, ?_, ?_⟩
              · rw [hnoise]
                exact hsync.ready
              · rw [hhost, hnoise]
                exact hsync.toDevice
              · rw [hhost, hnoise]
                show s.host.sendNonce + 1 = (s.device.noise.receiveNonce + 1).toNat
                rw [toNat_succ hopens.2, hsync.sending]
              · show host'.receiveNonce + 1 = (d'.noise.sendNonce + 1).toNat
                rw [toNat_succ hmax, hcount]
            dsimp only at hverify ⊢
            rw [readReceipt_some, hverify]
            by_cases hstatus : d'.cmdAckStatus ≠ 0
            · rw [if_pos hstatus]
              exact .inl ⟨hopens.1, hstep, d', rfl, rfl, (if_pos hstatus).symm⟩
            · rw [if_neg hstatus]
              exact .inl ⟨hopens.1, hstep, d', rfl, rfl, (if_neg hstatus).symm⟩
  · rw [sealed_ignored hlib hseal (by rwa [not_and_or, not_not] at hopens) env]
    exact .inr (readReceipt_none via _)

-- ================================================================= the runs

/-- How an attempt to stage went, for the call that it makes of the core:
the call was made and its status verified, with the ends in step again,
or the host raised something else. -/
inductive Went (stage : BridgeCore → UInt32 → BridgeStatus × BridgeCore) (a : Attempt) : Prop
  | accepted (call : stage a.before.device.core a.env.bleNowMs = (.ok, a.after.device.core))
      (outcome : a.outcome = .ok ()) (synced : a.after.synced)
  | refused (st : BridgeStatus) (failed : st ≠ .ok)
      (call : stage a.before.device.core a.env.bleNowMs = (st, a.after.device.core))
      (outcome : a.outcome = .error (.session (.rejected st.toByte))) (synced : a.after.synced)
  | raised (e : CommandError) (unanswered : e.unanswered) (outcome : a.outcome = .error e)

/-- The call of the core that a stage packet makes. -/
def stageCall (owner id : UInt32) (layout mode flags : UInt8) (payload : List UInt8)
    (core : BridgeCore) (bleNowMs : UInt32) : BridgeStatus × BridgeCore :=
  bridgeCoreStage core owner id (if layout = 2 then bridgeLayoutDe else bridgeLayoutUs)
    (if mode = 2 then bridgeModeText else bridgeModePassword) flags (some payload) payload.length
    bleNowMs bridgeTtlMs

/-- A turn in step. -/
theorem command_went (hlib : lib.Lawful) (via : Carrier) (owner id : UInt32)
    (layout mode flags : UInt8) {payload packet : List UInt8}
    (hpacket : buildStagePacket owner.toNat id.toNat layout.toNat mode.toNat flags.toNat payload
      = some packet) (env : FrameEnv) {s : Ends} (hsync : s.synced) :
    let r := commandDone lib via packet env s
    Went (stageCall owner id layout mode flags payload) ⟨env, s, r.1, r.2⟩ := by
  unfold commandDone
  generalize hr : command lib via packet env s = r
  have hcases := command_cases hlib via packet env hsync
  rw [hr] at hcases
  dsimp only at hcases ⊢
  rcases hcases with ⟨hfits, hstep, d', hcommand, hcore, hstatus⟩ | ⟨e, he, hunanswered⟩
  · obtain ⟨-, rfl⟩ := buildStagePacket_some owner id layout mode flags hpacket
    have hpayload : payload.length ≤ bridgeMaxInputBytes := by
      rw [List.length_append, stageHeader_length] at hfits
      unfold noiseIkMaxPlaintext at hfits
      unfold bridgeMaxInputBytes
      omega
    cases hcall : stageCall owner id layout mode flags payload s.device.core env.bleNowMs with
    | mk st core =>
        have hframe := stage_frame s.device.received env
          (stageHeader_cmd owner id layout mode flags payload.length payload)
        dsimp only at hframe
        rw [bleHandleStage_packet _ _ _ _ _ _ _ hpayload,
          show bridgeCoreStage s.device.received.core _ _ _ _ _ _ _ _ _ = (st, core) from hcall,
          hcommand] at hframe
        cases hframe
        have hcalled : stageCall owner id layout mode flags payload s.device.core env.bleNowMs
            = (st, r.2.device.core) := hcall.trans (Prod.ext rfl hcore.symm)
        by_cases hst : st = .ok
        · subst hst
          refine .accepted hcalled ?_ hstep
          rw [show r.1 = .ok 0 from hstatus]
          rfl
        · refine .refused st hst hcalled ?_ hstep
          have hnonzero : st.toByte ≠ 0 := fun h => hst (toByte_ok h)
          rw [show r.1 = .error _ from hstatus.trans (if_pos hnonzero)]
          rfl
  · refine .raised e hunanswered ?_
    rw [he]
    rfl

/-- The stage is made once. Where the loop returns, its last attempt is
accepted and every other one was answered BUSY, with the core left as it
was, and the ends are in step after each; and any other status ends it
there, with the error. -/
structure StagedOnce (stage : BridgeCore → UInt32 → BridgeStatus × BridgeCore)
    (run : List Attempt × Option (Except CommandError Ends)) : Prop where
  once : ∀ final, run.2 = some (.ok final) → ∃ earlier last, run.1 = earlier ++ [last] ∧
    stage last.before.device.core last.env.bleNowMs = (.ok, last.after.device.core) ∧
    (∀ a ∈ earlier, stage a.before.device.core a.env.bleNowMs
      = (.errBusy, a.before.device.core) ∧ a.after.device.core = a.before.device.core) ∧
    ∀ a ∈ run.1, a.after.synced
  returned : ∀ final, run.2 = some (.ok final) → final.synced
  ended : ∀ earlier a later status, run.1 = earlier ++ a :: later →
    a.outcome = .error (.session (.rejected status)) → status ≠ BridgeStatus.errBusy.toByte →
    later = [] ∧ run.2 = some (.error (.session (.rejected status)))

variable {stage : BridgeCore → UInt32 → BridgeStatus × BridgeCore}

/-- A loop that ends at once with the error of its attempt. -/
theorem StagedOnce.of_error {attempt : Attempt} {e : CommandError}
    (h : attempt.outcome = .error e) : StagedOnce stage ([attempt], some (.error e)) := by
  refine ⟨fun final hfinal => (by cases hfinal), fun final hfinal => (by cases hfinal), ?_⟩
  intro earlier a later status hsplit hstatus _
  obtain ⟨-, rfl, rfl⟩ := singleton_split hsplit
  rw [h] at hstatus
  cases hstatus
  exact ⟨rfl, rfl⟩

/-- A loop that returns at once. -/
theorem StagedOnce.of_ok {attempt : Attempt} (houtcome : attempt.outcome = .ok ())
    (hcall : stage attempt.before.device.core attempt.env.bleNowMs
      = (.ok, attempt.after.device.core)) (hsync : attempt.after.synced) :
    StagedOnce stage ([attempt], some (.ok attempt.after)) := by
  constructor
  · intro final _
    refine ⟨[], attempt, rfl, hcall, fun a ha => (by cases ha), fun a ha => ?_⟩
    rw [List.mem_singleton.mp ha]
    exact hsync
  · intro final hfinal
    cases hfinal
    exact hsync
  · intro earlier a later status hsplit hstatus _
    obtain ⟨-, rfl, -⟩ := singleton_split hsplit
    rw [houtcome] at hstatus
    cases hstatus

/-- A loop that goes on behind an answer BUSY. -/
theorem StagedOnce.of_busy {attempt : Attempt}
    {rest : List Attempt × Option (Except CommandError Ends)}
    (houtcome : attempt.outcome = .error (.session (.rejected BridgeStatus.errBusy.toByte)))
    (hcall : stage attempt.before.device.core attempt.env.bleNowMs
      = (.errBusy, attempt.before.device.core))
    (hcore : attempt.after.device.core = attempt.before.device.core)
    (hsync : attempt.after.synced) (hrest : StagedOnce stage rest) :
    StagedOnce stage (attempt :: rest.1, rest.2) := by
  constructor
  · intro final hfinal
    obtain ⟨earlier, last, hrun, hlast, hearlier, hsynced⟩ := hrest.once final hfinal
    refine ⟨attempt :: earlier, last, by rw [hrun]; rfl, hlast, ?_, ?_⟩
    · intro a ha
      rcases List.mem_cons.mp ha with rfl | ha
      · exact ⟨hcall, hcore⟩
      · exact hearlier a ha
    · intro a ha
      rcases List.mem_cons.mp ha with rfl | ha
      · exact hsync
      · exact hsynced a ha
  · exact hrest.returned
  · intro earlier a later status hsplit hstatus hbusy
    cases earlier with
    | nil =>
        obtain ⟨rfl, -⟩ := List.cons.inj hsplit
        rw [houtcome] at hstatus
        cases hstatus
        exact absurd rfl hbusy
    | cons first earlier =>
        exact hrest.ended earlier a later status (List.cons.inj hsplit).2 hstatus hbusy

/-- A loop whose every turn in step goes one of the three ways. -/
theorem stageUntil_once
    (hbusy : ∀ core now, (stage core now).1 = .errBusy → (stage core now).2 = core)
    {send : FrameEnv → Ends → Except CommandError Unit × Ends}
    (hsend : ∀ env s, s.synced → Went stage ⟨env, s, (send env s).1, (send env s).2⟩)
    (turns : List Turn) : ∀ {s : Ends}, s.synced → StagedOnce stage (stageUntil send turns s) := by
  induction turns with
  | nil =>
      intro s _
      refine ⟨fun final h => (by cases h), fun final h => (by cases h),
        fun earlier a later status h => ?_⟩
      exact absurd (congrArg List.length h) (by simp [stageUntil])
  | cons turn turns ih =>
      intro s hsync
      have hwent := hsend turn.env (s.idle turn.meanwhile) hsync
      unfold stageUntil
      dsimp only
      generalize hr : send turn.env (s.idle turn.meanwhile) = r at hwent ⊢
      obtain ⟨outcome, after⟩ := r
      dsimp only at hwent ⊢
      cases hwent with
      | accepted hcall houtcome hstep =>
          cases houtcome
          exact .of_ok rfl hcall hstep
      | refused st hfailed hcall houtcome hstep =>
          cases houtcome
          dsimp only
          split
          next hretry =>
            obtain rfl := (saysBusy_iff st).mp hretry.1
            have hcore : after.device.core = (s.idle turn.meanwhile).device.core := by
              have hkept := hbusy _ turn.env.bleNowMs (congrArg Prod.fst hcall)
              exact (congrArg Prod.snd hcall).symm.trans hkept
            exact .of_busy rfl (by rw [hcall, hcore]) hcore hstep (ih hstep)
          next => exact .of_error rfl
      | raised e hunanswered houtcome =>
          cases houtcome
          dsimp only
          rw [if_neg fun hretry => hunanswered.not_busy hretry.1]
          exact .of_error rfl

/-- A confirm that is not refused leaves the ends in step. -/
theorem confirmStaged_synced (hlib : lib.Lawful) {confirm : List UInt8} {turn : Turn}
    {s final : Ends} (hsync : s.synced) (h : confirmStaged lib confirm turn s = .ok final) :
    final.synced := by
  have hcases := command_cases hlib .tcp confirm turn.env
    (show (s.idle turn.meanwhile).synced from hsync)
  unfold confirmStaged at h
  generalize command lib .tcp confirm turn.env (s.idle turn.meanwhile) = r at h hcases
  obtain ⟨outcome, after⟩ := r
  dsimp only at h hcases
  rcases hcases with ⟨-, hstep, -⟩ | ⟨e, rfl, -⟩
  · cases outcome with
    | error e => cases h
    | ok status =>
        dsimp only at h
        split at h
        · cases h
        · cases h
          exact hstep
  · cases h

/-- Staging while the device types stages once. For a session in step,
every stage packet, and every number and timing of the turns: where
`send_stage_until_idle` or `stage_and_confirm` returns, the device has
accepted the payload in the last of the attempts; each one before it was
answered BUSY and has left the core, its ledger included, as it was; and
after each the counters are in step. Any status but OK and BUSY ends
either loop with the error of that attempt. -/
theorem retry_stages_once (hlib : lib.Lawful) {s : Ends} (hsync : s.synced) (owner id : UInt32)
    (layout mode flags : UInt8) {payload packet : List UInt8}
    (hpacket : buildStagePacket owner.toNat id.toNat layout.toNat mode.toNat flags.toNat payload
      = some packet) (turns : List Turn) :
    StagedOnce (stageCall owner id layout mode flags payload)
        (sendStageUntilIdle lib packet turns s) ∧
      ∀ (confirm : List UInt8) (last : Turn),
        StagedOnce (stageCall owner id layout mode flags payload)
          (stageAndConfirm lib packet confirm turns last s) := by
  have hbusy : ∀ core now, (stageCall owner id layout mode flags payload core now).1 = .errBusy →
      (stageCall owner id layout mode flags payload core now).2 = core :=
    fun core now => (stage_failed core owner id _ _ flags (some payload) payload.length now
      bridgeTtlMs).1
  have hturn := command_went hlib
  constructor
  · refine stageUntil_once hbusy (fun env s hsync => ?_) turns hsync
    unfold sendCommand
    rw [if_pos hsync.isReady]
    exact hturn .ble owner id layout mode flags hpacket env hsync
  · intro confirm last
    have hloop := stageUntil_once hbusy (fun env s hsync =>
      hturn .tcp owner id layout mode flags hpacket env hsync) turns hsync
    unfold stageAndConfirm
    dsimp only
    generalize stageUntil (commandDone lib .tcp packet) turns s = loop at hloop ⊢
    obtain ⟨attempts, ended⟩ := loop
    have hreturns : ∀ final, ended.map (fun ended => ended.bind (confirmStaged lib confirm last))
        = some (.ok final) → ∃ staged, ended = some (.ok staged) ∧
          confirmStaged lib confirm last staged = .ok final := by
      intro final hfinal
      obtain ⟨outcome, rfl, hconfirm⟩ := Option.map_eq_some_iff.mp hfinal
      cases outcome with
      | error e => cases hconfirm
      | ok staged => exact ⟨staged, rfl, hconfirm⟩
    refine ⟨fun final hfinal => ?_, fun final hfinal => ?_, ?_⟩
    · obtain ⟨staged, hstaged, -⟩ := hreturns final hfinal
      exact hloop.once staged hstaged
    · obtain ⟨staged, hstaged, hconfirm⟩ := hreturns final hfinal
      exact confirmStaged_synced hlib (hloop.returned staged hstaged) hconfirm
    · intro earlier a later status hsplit hstatus hnot
      obtain ⟨hlater, hended⟩ := hloop.ended earlier a later status hsplit hstatus hnot
      dsimp only at hended ⊢
      rw [hended]
      exact ⟨hlater, rfl⟩

/-- A job in the way of the first turn, and given up before the second. -/
theorem retry_stages_once_counted :
    let s : Ends := ⟨countedHost 0, countedDevice 0⟩
    StagedOnce (stageCall 7 9 2 1 0 [97])
      (sendStageUntilIdle (toyCrypto none) [1, 7, 0, 0, 0, 9, 0, 0, 0, 2, 1, 0, 1, 0, 97]
        [⟨[.stage 7 8 1 1 0 (some [98]) 1 1000 1000], envAt 1000, false⟩,
          ⟨[.abort], envAt 1100, false⟩] s) :=
  (@retry_stages_once (toyCrypto none) toyCrypto_lawful ⟨countedHost 0, countedDevice 0⟩
    (counted_synced 0) 7 9 2 1 0 [97] _ (by decide) _).1

end PicoBridge
