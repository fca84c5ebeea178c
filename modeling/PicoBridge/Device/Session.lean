/-
A session between `NoiseIKInitiator` and the device, with the network in
the hands of an adversary: what the host may conclude from a receipt.

# The system

The host calls `command` (`tools/pico_tcp_send.py`): `encrypt_packet`,
send, receive, `verify_transport_ack`. It issues its next command once
the last one has a verified receipt, with status 0 or not, and stops at
any other error (`HostPhase`). Whatever reaches the device on one of its
transports is handled by `command_process_frame`, and whatever reaches
the host is taken for the receipt it waits for; both may be anything.

# What the adversary cannot do

The AEAD is symbolic: a frame that opens under a session key and a nonce
was sealed in this session by the other side, under that nonce
(`Genuine`). A handshake frame that `command_process_frame` takes ends
the session (`live`), and so does a restart.

# The argument

The four counters are the lengths of the logs of a stop-and-wait
exchange (`InStep`), so every run is a trace of `Lib.Lockstep`, where an
accepted answer settles what came before.
-/
import PicoBridge.Lib.Lockstep
import PicoBridge.Noise.Agreement
import PicoBridge.Device.Frame

namespace PicoBridge

open Lib (Machine Trace)
open Lib.Lockstep (Exchange Event Step issues handles accepts)

-- ============================================================== the system

/-- Where the host is: between two commands, waiting for a receipt, or
stopped by an error. -/
inductive HostPhase
  | idle
  | waiting
  | stopped
  deriving DecidableEq

/-- The two ends, whether the device's session is still this one, and the
plaintexts sealed in it with their counters. -/
structure Session where
  host : NoiseIKInitiator
  phase : HostPhase
  device : Device
  live : Bool
  hostSealed : List (Nat × List UInt8)
  deviceSealed : List (Nat × List UInt8)

/-- What can happen: a call of `command`, a frame reaching the device or
the host, an error of the host's transport, a core call of the device's
own, and a restart of the device. -/
inductive SessionInput
  | command (plaintext : List UInt8)
  | toDevice (env : FrameEnv) (data : List UInt8)
  | toHost (packet : List UInt8)
  | hostError
  | core (call : CoreCall)
  | restart (d : Device)

/-- An event of the session: the commands' plaintexts, and the status
bytes of the receipts. -/
abbrev SessionEvent := Event (List UInt8) UInt8

variable (lib : Crypto)

/-- `command` up to its send. -/
def issueCommand (s : Session) (plaintext : List UInt8) : Session × List SessionEvent :=
  match s.phase with
  | .idle =>
      match encryptPacket lib plaintext s.host with
      | .ok _ host =>
          ({ s with
              host := host
              phase := .waiting
              hostSealed := s.hostSealed ++ [(s.host.sendNonce, plaintext)] },
            [.issue plaintext])
      | .error _ host => ({ s with host := host, phase := .stopped }, [])
  | _ => (s, [])

/-- A frame at the device. A receipt carries the status its dispatch left
in `cmd_ack_status`. -/
def deviceFrame (s : Session) (env : FrameEnv) (data : List UInt8) :
    Session × List SessionEvent :=
  let r := commandProcessFrame lib s.device env data bridgeTransportResponseMax
  match if s.live then framePlaintext lib s.device.noise data else none with
  | some plaintext =>
      ({ s with
          device := r.2
          deviceSealed := s.deviceSealed ++ (r.1.map fun _ =>
            (s.device.noise.sendNonce.toNat, transportAck ++ [r.2.cmdAckStatus])).toList },
        [.handle plaintext (r.1.map fun _ => r.2.cmdAckStatus)])
  | none => ({ s with device := r.2, live := s.live && !decide (IsHandshake data) }, [])

/-- `command` from its receive on. -/
def hostReceipt (s : Session) (packet : List UInt8) : Session × List SessionEvent :=
  match s.phase with
  | .waiting =>
      match verifyTransportAck lib packet s.host with
      | .ok status host => ({ s with host := host, phase := .idle }, [.accept status])
      | .error (.rejected status) host =>
          ({ s with host := host, phase := .idle }, [.accept status])
      | .error _ host => ({ s with host := host, phase := .stopped }, [])
  | _ => (s, [])

def sessionMachine : Machine Session SessionInput SessionEvent where
  step s
    | .command plaintext => issueCommand lib s plaintext
    | .toDevice env data => deviceFrame lib s env data
    | .toHost packet => hostReceipt lib s packet
    | .hostError => ({ s with phase := .stopped }, [])
    | .core call =>
        ({ s with device := { s.device with core := (coreOp s.device.core call).2 } }, [])
    | .restart d => ({ s with device := d, live := false }, [])

/-- Right after the handshake. -/
def sessionStart (host : NoiseIKInitiator) (device : Device) : Session :=
  ⟨host, .idle, device, true, [], []⟩

/-- What a frame that is delivered opens to was sealed by the other
side. -/
def Genuine (s : Session) : SessionInput → Prop
  | .toDevice _ data =>
      s.live = true → ∀ (n : UInt64) plaintext,
        lib.decrypt s.device.noise.receiveKey (noiseNonce n) [] (data.drop 9) = some plaintext →
          (n.toNat, plaintext) ∈ s.hostSealed
  | .toHost packet =>
      ∀ key n nonce plaintext, s.host.receiveKey = some key → hostNoiseNonce n = some nonce →
        lib.decrypt key nonce [] (packet.drop 9) = some plaintext →
          (n, plaintext) ∈ s.deviceSealed
  | _ => True

-- ========================================================== the refinement

/-- The counters and the sealed plaintexts, by the logs of the exchange. -/
structure InStep (s : Session) (a : Exchange (List UInt8) UInt8) : Prop where
  hostSealed : ∀ n p, (n, p) ∈ s.hostSealed → a.issued[n]? = some p
  deviceSealed : ∀ n q, (n, q) ∈ s.deviceSealed →
    ∃ r, a.answers[n]? = some r ∧ q = transportAck ++ [r]
  sendNonce : s.phase ≠ .stopped → s.host.sendNonce = a.issued.length
  receiveNonce : s.phase ≠ .stopped → s.host.receiveNonce = a.accepted.length
  idle : s.phase = .idle → a.issued.length = a.accepted.length
  waiting : s.phase = .waiting → a.issued.length = a.accepted.length + 1
  handled : s.live = true → s.device.noise.receiveNonce.toNat = a.handled.length
  answered : s.live = true → s.device.noise.sendNonce.toNat = a.answers.length

variable {lib}

theorem inStep_start {host : NoiseIKInitiator} {device : Device}
    (h : Paired host device.noise) : InStep (sessionStart host device) Exchange.init where
  hostSealed _ _ hmem := absurd hmem List.not_mem_nil
  deviceSealed _ _ hmem := absurd hmem List.not_mem_nil
  sendNonce _ := h.hostSend
  receiveNonce _ := h.hostReceive
  idle _ := rfl
  waiting hphase := HostPhase.noConfusion hphase
  handled _ := by
    show device.noise.receiveNonce.toNat = 0
    rw [h.deviceReceive]
    rfl
  answered _ := by
    show device.noise.sendNonce.toNat = 0
    rw [h.deviceSend]
    rfl

/-- A log keeps what it had when an entry is added. -/
theorem getElem?_snoc {α : Type} {l : List α} {n : Nat} {x y : α} (h : l[n]? = some x) :
    (l ++ [y])[n]? = some x := by
  obtain ⟨hlt, -⟩ := List.getElem?_eq_some_iff.mp h
  rwa [List.getElem?_append_left hlt]

variable {s : Session} {a : Exchange (List UInt8) UInt8}

-- ================================================================ the host

/-- A host that stops takes no further part. -/
theorem InStep.stop (h : InStep s a) (host : NoiseIKInitiator) :
    InStep { s with host := host, phase := .stopped } a where
  hostSealed := h.hostSealed
  deviceSealed := h.deviceSealed
  sendNonce hphase := absurd rfl hphase
  receiveNonce hphase := absurd rfl hphase
  idle hphase := HostPhase.noConfusion hphase
  waiting hphase := HostPhase.noConfusion hphase
  handled := h.handled
  answered := h.answered

theorem issueCommand_sim (h : InStep s a) (p : List UInt8) :
    ∃ b, Trace Step a (issueCommand lib s p).2 b ∧ InStep (issueCommand lib s p).1 b := by
  unfold issueCommand
  split
  next hphase =>
    have hidle := h.idle hphase
    have hrunning : s.phase ≠ .stopped := by
      rw [hphase]
      decide
    cases hrun : encryptPacket lib p s.host with
    | error e host => exact ⟨a, .nil a, h.stop host⟩
    | ok frame host =>
        obtain rfl := encryptPacket_ok hrun
        refine ⟨_, .cons (.issue p hidle) (.nil _), ?_, h.deviceSealed, fun _ => ?_,
          fun _ => h.receiveNonce hrunning, fun hp => (by cases hp), fun _ => ?_, h.handled,
          h.answered⟩
        · intro n q hmem
          rcases List.mem_append.mp hmem with hold | hnew
          · exact getElem?_snoc (h.hostSealed n q hold)
          · cases List.mem_singleton.mp hnew
            rw [h.sendNonce hrunning]
            exact List.getElem?_concat_length
        · show s.host.sendNonce + 1 = (a.issued ++ [p]).length
          rw [h.sendNonce hrunning, List.length_append]
          rfl
        · show (a.issued ++ [p]).length = a.accepted.length + 1
          rw [List.length_append, hidle]
          rfl
  next => exact ⟨a, .nil a, h⟩

/-- A verified receipt is the next one the device gave. -/
theorem verified_sim (h : InStep s a) {packet : List UInt8}
    (hgenuine : Genuine lib s (.toHost packet)) (hphase : s.phase = .waiting)
    {status : UInt8} {host : NoiseIKInitiator}
    (hrun : verifyTransportAck lib packet s.host = .ok status host ∨
      verifyTransportAck lib packet s.host = .error (.rejected status) host) :
    ∃ b, Trace Step a [.accept status] b ∧ InStep { s with host := host, phase := .idle } b := by
  have hrunning : s.phase ≠ .stopped := by
    rw [hphase]
    decide
  obtain ⟨key, nonce, q, hreceipt, hstatus, rfl⟩ := verifyAck_verified hrun
  have hsealed := hgenuine key s.host.receiveNonce nonce q hreceipt.withKey hreceipt.underNonce
    hreceipt.opens
  rw [h.receiveNonce hrunning] at hsealed
  obtain ⟨r, hnext, rfl⟩ := h.deviceSealed _ _ hsealed
  have hr : (transportAck ++ [r]).getLastD 0 = r := by
    rw [List.getLastD_eq_getLast?, List.getLast?_concat]
    rfl
  rw [hr] at hstatus
  subst hstatus
  have hwaiting := h.waiting hphase
  have hlt : a.accepted.length < a.issued.length := by omega
  refine ⟨_, .cons (.accept hlt hnext) (.nil _), h.hostSealed, h.deviceSealed,
    fun _ => h.sendNonce hrunning, fun _ => ?_, fun _ => ?_, fun hp => (by cases hp), h.handled,
    h.answered⟩
  · show s.host.receiveNonce + 1 = (a.accepted ++ [status]).length
    rw [h.receiveNonce hrunning, List.length_append]
    rfl
  · show a.issued.length = (a.accepted ++ [status]).length
    rw [hwaiting, List.length_append]
    rfl

theorem hostReceipt_sim (h : InStep s a) {packet : List UInt8}
    (hgenuine : Genuine lib s (.toHost packet)) :
    ∃ b, Trace Step a (hostReceipt lib s packet).2 b ∧ InStep (hostReceipt lib s packet).1 b := by
  unfold hostReceipt
  split
  next hphase =>
    split
    next status host hrun => exact verified_sim h hgenuine hphase (.inl hrun)
    next status host hrun => exact verified_sim h hgenuine hphase (.inr hrun)
    next e host hrun hother => exact ⟨a, .nil a, h.stop host⟩
  next => exact ⟨a, .nil a, h⟩

-- ============================================================== the device

theorem answers_snoc (a : Exchange (List UInt8) UInt8) (p : List UInt8) (answer : Option UInt8) :
    ({ a with handled := a.handled ++ [(p, answer)] } : Exchange _ _).answers
      = a.answers ++ answer.toList := by
  show (a.handled ++ [(p, answer)]).filterMap Prod.snd = a.handled.filterMap Prod.snd ++ _
  rw [List.filterMap_append]
  cases answer <;> rfl

/-- A frame of this session that opens is the next command. -/
theorem dispatched_sim (h : InStep s a) (hlive : s.live = true) {env : FrameEnv}
    {data p : List UInt8} {d₁ : Device} (hdispatch : Dispatches lib s.device data p d₁)
    (hgenuine : Genuine lib s (.toDevice env data)) :
    ∃ b, Trace Step a (deviceFrame lib s env data).2 b ∧
      InStep (deviceFrame lib s env data).1 b := by
  have hplain := framePlaintext_iff.mpr ⟨d₁, hdispatch⟩
  have hframe := frame_dispatched hdispatch env bridgeTransportResponseMax
  obtain ⟨-, -, noise, hopen, rfl⟩ := hdispatch
  obtain ⟨hmax, hopens, rfl⟩ := decryptPacket_ok hopen
  rw [List.drop_drop] at hopens
  have hsealed := hgenuine hlive s.device.noise.receiveNonce p hopens
  rw [h.handled hlive] at hsealed
  have hnext := h.hostSealed _ _ hsealed
  have hcount : (s.device.noise.receiveNonce + 1).toNat = a.handled.length + 1 := by
    rw [toNat_succ hmax, h.handled hlive]
  unfold deviceFrame
  rw [if_pos hlive, hplain, hframe]
  dsimp only [afterCommand]
  generalize hd₁ : ({ s.device with
      noise := { s.device.noise with receiveNonce := s.device.noise.receiveNonce + 1 } } : Device)
    = d₁
  generalize hr : bleHandleAuthenticatedCommand d₁ env p = r
  have hnoise : r.2.noise
      = { s.device.noise with receiveNonce := s.device.noise.receiveNonce + 1 } := by
    rw [← hr, (command_effect d₁ env p).noise, ← hd₁]
  rcases sendReceipt_cases lib r.2 bridgeTransportResponseMax r.1 with
    hsend | ⟨receipt, hmax', hsend⟩
  · rw [hsend]
    refine ⟨_, .cons (.handle none hnext) (.nil _), h.hostSealed, ?_, h.sendNonce, h.receiveNonce,
      h.idle, h.waiting, fun _ => ?_, fun _ => ?_⟩
    · intro n q hmem
      rw [answers_snoc, Option.toList_none, List.append_nil]
      rw [Option.map_none, Option.toList_none, List.append_nil] at hmem
      exact h.deviceSealed n q hmem
    · show r.2.noise.receiveNonce.toNat = (a.handled ++ [(p, none)]).length
      rw [hnoise, List.length_append]
      exact hcount
    · rw [answers_snoc, Option.toList_none, List.append_nil]
      show r.2.noise.sendNonce.toNat = a.answers.length
      rw [hnoise]
      exact h.answered hlive
  · rw [hnoise] at hmax'
    rw [hsend]
    refine ⟨_, .cons (.handle (some r.2.cmdAckStatus) hnext) (.nil _), h.hostSealed, ?_,
      h.sendNonce, h.receiveNonce, h.idle, h.waiting, fun _ => ?_, fun _ => ?_⟩
    · intro n q hmem
      rw [answers_snoc, Option.toList_some]
      rcases List.mem_append.mp hmem with hold | hnew
      · obtain ⟨st, hst, hq⟩ := h.deviceSealed n q hold
        exact ⟨st, getElem?_snoc hst, hq⟩
      · cases List.mem_singleton.mp hnew
        rw [h.answered hlive]
        exact ⟨_, List.getElem?_concat_length, rfl⟩
    · show r.2.noise.receiveNonce.toNat = (a.handled ++ [(p, some r.2.cmdAckStatus)]).length
      rw [hnoise, List.length_append]
      exact hcount
    · rw [answers_snoc, Option.toList_some]
      show (r.2.noise.sendNonce + 1).toNat = (a.answers ++ [r.2.cmdAckStatus]).length
      rw [hnoise, List.length_append]
      show (s.device.noise.sendNonce + 1).toNat = _
      rw [toNat_succ hmax', h.answered hlive]
      rfl

/-- A frame at the device. -/
theorem deviceFrame_sim (h : InStep s a) {env : FrameEnv} {data : List UInt8}
    (hgenuine : Genuine lib s (.toDevice env data)) :
    ∃ b, Trace Step a (deviceFrame lib s env data).2 b ∧
      InStep (deviceFrame lib s env data).1 b := by
  by_cases hlive : s.live = true
  · rcases frame_cases lib s.device env data bridgeTransportResponseMax with
      ⟨hframe, hnot, hnone⟩ | ⟨hhandshake, response, hframe⟩ | ⟨p, d₁, hdispatch, -⟩
    · unfold deviceFrame
      rw [if_pos hlive, hnone, hframe]
      exact ⟨a, .nil a, h.hostSealed, h.deviceSealed, h.sendNonce, h.receiveNonce, h.idle,
        h.waiting, fun _ => h.handled hlive, fun _ => h.answered hlive⟩
    · have hnone : framePlaintext lib s.device.noise data = none := by
        unfold framePlaintext
        rw [if_neg]
        rintro ⟨hcmd, -⟩
        exact absurd (hhandshake.1.symm.trans hcmd) (by decide)
      unfold deviceFrame
      rw [if_pos hlive, hnone]
      refine ⟨a, .nil a, h.hostSealed, h.deviceSealed, h.sendNonce, h.receiveNonce, h.idle,
        h.waiting, fun hlive' => ?_, fun hlive' => ?_⟩
      all_goals
        rw [decide_eq_true hhandshake, Bool.not_true, Bool.and_false] at hlive'
        cases hlive'
    · exact dispatched_sim h hlive hdispatch hgenuine
  · unfold deviceFrame
    rw [if_neg hlive]
    refine ⟨a, .nil a, h.hostSealed, h.deviceSealed, h.sendNonce, h.receiveNonce, h.idle,
      h.waiting, fun hlive' => ?_, fun hlive' => ?_⟩
    all_goals exact absurd (Bool.and_eq_true_iff.mp hlive').1 hlive

-- ================================================================= the runs

theorem session_sim (s : Session) (a : Exchange (List UInt8) UInt8) (i : SessionInput)
    (h : InStep s a) (hgenuine : Genuine lib s i) :
    ∃ b, Trace Step a ((sessionMachine lib).step s i).2 b ∧
      InStep ((sessionMachine lib).step s i).1 b := by
  cases i with
  | command p => exact issueCommand_sim h p
  | toDevice env data => exact deviceFrame_sim h hgenuine
  | toHost packet => exact hostReceipt_sim h hgenuine
  | hostError => exact ⟨a, .nil a, h.stop s.host⟩
  | core call =>
      exact ⟨a, .nil a, h.hostSealed, h.deviceSealed, h.sendNonce, h.receiveNonce, h.idle,
        h.waiting, h.handled, h.answered⟩
  | restart d =>
      exact ⟨a, .nil a, h.hostSealed, h.deviceSealed, h.sendNonce, h.receiveNonce, h.idle,
        h.waiting, fun hlive => (by cases hlive), fun hlive => (by cases hlive)⟩

/-- A host and a device with session keys 7 and 8. -/
def sessionHost : NoiseIKInitiator where
  staticPriv := zeroKey
  staticPub := zeroKey
  devicePub := zeroKey
  h := zeroKey
  ck := zeroKey
  key := none
  nonce := 0
  sendKey := some (tagKey 7)
  receiveKey := some (tagKey 8)
  sendNonce := 0
  receiveNonce := 0
  ephPriv := none
  ephPub := none

def sessionDevice : Device :=
  { benchDevice with
    noise :=
      { noiseIkCtxZero with receiveKey := tagKey 7, sendKey := tagKey 8, ready := true } }

/-- A plaintext, sealed under a key and a counter. -/
def sealedFrame (key : Key) (counter : UInt64) (plaintext : List UInt8) : List UInt8 :=
  cmdEncrypted ::
    (leBytes 8 counter.toNat ++ (plaintext ++ toyTag none key (noiseNonce counter) [] plaintext))

/-- A TICK and its receipt, and a CANCEL and its receipt. Both commands are
delivered twice, the TICK again between the CANCEL and its delivery. -/
def tickRun : List SessionInput :=
  [.command [bleCmdTick, 0, 0, 0, 0],
    .toDevice (envAt 0) (sealedFrame (tagKey 7) 0 [bleCmdTick, 0, 0, 0, 0]),
    .toHost (sealedFrame (tagKey 8) 0 (transportAck ++ [0])),
    .command [bleCmdCancel, 7, 0, 0, 0, 1, 0, 0, 0],
    .toDevice (envAt 0) (sealedFrame (tagKey 7) 0 [bleCmdTick, 0, 0, 0, 0]),
    .toDevice (envAt 0) (sealedFrame (tagKey 7) 1 [bleCmdCancel, 7, 0, 0, 0, 1, 0, 0, 0]),
    .toDevice (envAt 0) (sealedFrame (tagKey 7) 1 [bleCmdCancel, 7, 0, 0, 0, 1, 0, 0, 0]),
    .toHost (sealedFrame (tagKey 8) 1 (transportAck ++ [3]))]

theorem sealedFrame_opens {key : Key} {n counter : UInt64} {p q : List UInt8}
    (h : (toyCrypto none).decrypt key (noiseNonce n) [] ((sealedFrame key counter p).drop 9)
      = some q) : n = counter ∧ q = p := toy_opens h

/-- A sealed frame is genuine where its sender has sealed it. -/
theorem sealedFrame_toDevice {s : Session} {env : FrameEnv} {key : Key} {counter : UInt64}
    {p : List UInt8} (hkey : s.device.noise.receiveKey = key)
    (hsealed : (counter.toNat, p) ∈ s.hostSealed) :
    Genuine (toyCrypto none) s (.toDevice env (sealedFrame key counter p)) := by
  intro _ n q hopen
  rw [hkey] at hopen
  obtain ⟨rfl, rfl⟩ := sealedFrame_opens hopen
  exact hsealed

theorem sealedFrame_toHost {s : Session} {key : Key} {counter : UInt64} {p : List UInt8}
    (hkey : s.host.receiveKey = some key) (hsealed : (counter.toNat, p) ∈ s.deviceSealed) :
    Genuine (toyCrypto none) s (.toHost (sealedFrame key counter p)) := by
  intro key' n nonce q hkey' hnonce hopen
  cases hkey.symm.trans hkey'
  obtain ⟨counter', rfl, rfl⟩ := hostNoiseNonce_eq_some hnonce
  obtain ⟨rfl, rfl⟩ := sealedFrame_opens hopen
  exact hsealed

theorem tickRun_genuine :
    (sessionMachine (toyCrypto none)).StepsMeet (Genuine (toyCrypto none))
      (sessionStart sessionHost sessionDevice) tickRun := by
  refine ⟨trivial, ?_, ?_, trivial, ?_, ?_, ?_, ?_, trivial⟩
  · exact sealedFrame_toDevice (by decide +kernel) (by decide +kernel)
  · exact sealedFrame_toHost (by decide +kernel) (by decide +kernel)
  · exact sealedFrame_toDevice (by decide +kernel) (by decide +kernel)
  · exact sealedFrame_toDevice (by decide +kernel) (by decide +kernel)
  · exact sealedFrame_toDevice (by decide +kernel) (by decide +kernel)
  · exact sealedFrame_toHost (by decide +kernel) (by decide +kernel)

/-- What happened before the host verified the second receipt. -/
def tickHistory : List SessionEvent :=
  [.issue [bleCmdTick, 0, 0, 0, 0], .handle [bleCmdTick, 0, 0, 0, 0] (some 0), .accept 0,
    .issue [bleCmdCancel, 7, 0, 0, 0, 1, 0, 0, 0],
    .handle [bleCmdCancel, 7, 0, 0, 0, 1, 0, 0, 0] (some 3)]

/-- Each command was dispatched once, and each status was its own. -/
theorem tickRun_trace :
    (sessionMachine (toyCrypto none)).trace (sessionStart sessionHost sessionDevice) tickRun
      = tickHistory ++ .accept 3 :: [] := by
  decide +kernel

end PicoBridge
