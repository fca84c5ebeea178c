/-
The endpoint and the radio record: when `net_endpoint_poll` fails closed.

# The two parties

The command handlers rewrite or erase the radio sector at any moment, and
tell the endpoint nothing of it. The endpoint reads the sector at its
start and in RETRY_WAIT only. What an observer sees of a poll is the
sector after it, the calls it made of the radio, the endpoint's state, and
whether station mode is on and the listener armed (`WifiSeen`).

# Where the code is passive

An association attempt always has the credentials of the record that the
poll read (`attempts_read`). READY has a record as long as none is erased
while the endpoint is CONNECTING or READY, and no retry finds an address
without one. But nothing ever turns station mode off for good or closes
the listener, so only an endpoint that has not begun to join is passive
after a CLEAR_RADIO (`KeepsRecord`). Nothing less will do: after a step
that is not so, two polls at most show it (`record_lost`).
-/
import PicoBridge.Link.Stream

namespace PicoBridge

open Lib (Machine)
open Lib.NorFlash (Op run Publishes publishes_run)

-- ============================================================ what is observed

/-- The calls that change the association. -/
inductive RadioCall
  | disableSta
  | enableSta
  | connect (ssid psk : List UInt8)
  deriving DecidableEq

/-- What one `net_endpoint_poll` reads outside flash. -/
structure WifiEnv where
  nowMs : UInt32
  haveIp : Bool
  connectOk : Bool
  listenOk : Bool
  linkBelowJoin : Bool

/-- The same, with what it reads of flash. -/
def WifiEnv.reading (env : WifiEnv) (radio : Sector) : NetPollEnv where
  nowMs := env.nowMs
  haveIp := env.haveIp
  radioRecord := (radioProvisionFlashRead radio).isSome
  connectOk := env.connectOk
  listenOk := env.listenOk
  linkBelowJoin := env.linkBelowJoin

/-- `net_endpoint_start`, `net_endpoint_poll`, or a command. -/
inductive WifiInput
  | start
  | poll (env : WifiEnv)
  | command (env : FrameEnv) (p : List UInt8)

/-- A poll: the sector it leaves, the calls it made of the radio, and the
endpoint's state after it. -/
structure WifiReport where
  radio : Sector
  calls : List RadioCall
  netState : NetState
  netListenerOk : Bool

/-- The calls that `net_endpoint_poll` makes of the radio. -/
def netRadioCalls (env : WifiEnv) (n : NetEndpoint) : List RadioCall :=
  match n.netState with
  | .noRecord => []
  | .retryWait =>
      if (env.nowMs - n.netRetryAtMs).toInt32 < 0 then []
      else if env.haveIp then []
      else
        match radioProvisionFlashRead n.device.radio with
        | none => []
        | some cfg => [.enableSta, .connect cfg.ssid cfg.psk]
  | .connecting =>
      if env.haveIp ∧ (n.netListener || env.listenOk) then []
      else if 0 ≤ (env.nowMs - n.netRetryAtMs).toInt32 ∧ env.linkBelowJoin then
        [.disableSta, .enableSta]
      else []
  | .ready => []

/-- One poll, as it is seen. -/
def wifiPoll (env : WifiEnv) (n : NetEndpoint) : NetEndpoint × WifiReport :=
  let m := (netEndpointPoll (env.reading n.device.radio) n).1
  (m, ⟨m.device.radio, netRadioCalls env n, m.netState, m.netListenerOk⟩)

/-- The endpoint, whether the radio's station mode is on, and whether a
CLEAR_RADIO was answered BRIDGE_OK since the last poll with no record
written after it. -/
structure WifiSide where
  endpoint : NetEndpoint
  sta : Bool
  cleared : Bool

/-- The state of the statics at power-on, before `net_endpoint_start`. -/
def wifiInit (device : Device) : WifiSide := ⟨netEndpointInit device, false, false⟩

/-- Station mode after a call of the radio. -/
def RadioCall.sta (before : Bool) : RadioCall → Bool
  | .disableSta => false
  | .enableSta => true
  | .connect .. => before

/-- A CLEAR_RADIO that is answered BRIDGE_OK. -/
def clearAnswered (d : Device) (env : FrameEnv) (p : List UInt8) : Bool :=
  byteOf p 0 == bleCmdClearRadio &&
    (bleHandleAuthenticatedCommand d env p).2.cmdAckStatus == BridgeStatus.ok.toByte

/-- A poll's report, with station mode and the listener after it, and
whether the record was cleared before it. -/
structure WifiSeen extends WifiReport where
  sta : Bool
  listener : Bool
  cleared : Bool

/-- The endpoint beside the commands. -/
def wifiMachine : Machine WifiSide WifiInput WifiSeen where
  step s
    | .start =>
        let record := radioProvisionFlashRead s.endpoint.device.radio
        ({ s with endpoint := netEndpointStart record.isSome s.endpoint }, [])
    | .poll env =>
        let r := wifiPoll env s.endpoint
        let sta := r.2.calls.foldl RadioCall.sta s.sta
        (⟨r.1, sta, false⟩, [⟨r.2, sta, r.1.netListener, s.cleared⟩])
    | .command env p =>
        let d := (bleHandleAuthenticatedCommand s.endpoint.device env p).2
        ({ s with
            endpoint := { s.endpoint with device := d }
            cleared := (radioProvisionFlashRead d.radio).isNone &&
              (s.cleared || clearAnswered s.endpoint.device env p) }, [])

-- ================================================================= the promise

/-- Without a valid record no radio and no listener: an attempt has the
credentials of the sector's record, READY with a listener has a record in
the sector, and the poll after a CLEAR_RADIO answered BRIDGE_OK leaves
station mode off and no listener. -/
structure WifiSeen.FailClosed (r : WifiSeen) : Prop where
  attempt : ∀ ssid psk, .connect ssid psk ∈ r.calls →
    ∃ cfg, radioProvisionFlashRead r.radio = some cfg ∧ ssid = cfg.ssid ∧ psk = cfg.psk
  passive : r.netState = .ready → r.netListenerOk = true →
    (radioProvisionFlashRead r.radio).isSome
  closed : r.cleared = true → r.sta = false ∧ r.listener = false

/-- A CLEAR_RADIO that gets to the erase. -/
def ClearsRadio (d : Device) (env : FrameEnv) (p : List UInt8) : Prop :=
  byteOf p 0 = bleCmdClearRadio ∧
    controllerStoreIsAdmin d.controllers d.noise.noiseAuthenticatedSlot = true ∧
    env.tudMounted = false ∧ env.radioExec ≠ .failed false

/-- CONNECTING or READY. -/
def NetEndpoint.active (n : NetEndpoint) : Prop := n.netState = .connecting ∨ n.netState = .ready

/-- No record is erased while the endpoint is CONNECTING or READY, none is
cleared with an answer of BRIDGE_OK once station mode is on or the listener
armed, and no retry finds an address without a record. -/
def KeepsRecord (s : WifiSide) : WifiInput → Prop
  | .start => True
  | .poll env => s.endpoint.netState = .retryWait →
      0 ≤ (env.nowMs - s.endpoint.netRetryAtMs).toInt32 →
      env.haveIp = true → (radioProvisionFlashRead s.endpoint.device.radio).isSome
  | .command env p =>
      (s.endpoint.active → ¬ClearsRadio s.endpoint.device env p) ∧
        (s.sta = true ∨ s.endpoint.netListener = true →
          ¬(ClearsRadio s.endpoint.device env p ∧ env.radioExec = .ok))

-- ================================================================ the commands

theorem erased_unreadable : radioProvisionFlashRead erasedSector = none := by
  unfold radioProvisionFlashRead radioConfigParse2 parseCommon
  dsimp only
  rw [if_neg (by decide), if_pos (.inl (by decide))]

/-- What SET_RADIO leaves: the sector as it was, or a record. -/
theorem setRadio_sector (d : Device) (env : FrameEnv) (p : List UInt8) :
    (bleHandleSetRadio d env p).2.radio = d.radio ∨
      (radioProvisionFlashRead (bleHandleSetRadio d env p).2.radio).isSome := by
  unfold bleHandleSetRadio
  cases himage : radioImage d env p with
  | error st => exact .inl rfl
  | ok image =>
      dsimp only
      unfold radioProvisionFlashWriteAndVerify
      cases hparse : radioConfigParse2 (some image) radioSectorSize with
      | none => exact .inl rfl
      | some candidate =>
          have hread : (radioProvisionFlashRead image).isSome := by
            unfold radioProvisionFlashRead
            rw [hparse]
            rfl
          dsimp only
          rw [radioProgramOps_run]
          cases env.radioExec with
          | failed ran =>
              cases ran with
              | false => exact .inl rfl
              | true => exact .inr hread
          | ok =>
              dsimp only
              rw [if_neg (not_not_intro rfl), hparse]
              exact .inr hread

/-- What CLEAR_RADIO leaves: the sector as it was, or erased. -/
theorem clearRadio_sector {d : Device} {env : FrameEnv} {p : List UInt8}
    (hcmd : byteOf p 0 = bleCmdClearRadio) :
    (ClearsRadio d env p ∧ (bleHandleClearRadio d env).2.radio = erasedSector) ∨
      (¬ClearsRadio d env p ∧ (bleHandleClearRadio d env).2.radio = d.radio) := by
  unfold bleHandleClearRadio
  by_cases hadmin : controllerStoreIsAdmin d.controllers d.noise.noiseAuthenticatedSlot = true
  · rw [if_neg (not_not_intro hadmin)]
    cases hmounted : env.tudMounted with
    | true =>
        refine .inr ⟨fun h => ?_, rfl⟩
        rw [h.2.2.1] at hmounted
        cases hmounted
    | false =>
        rw [if_neg Bool.false_ne_true]
        dsimp only
        unfold radioProvisionFlashClear
        cases hexec : env.radioExec with
        | ok => exact .inl ⟨⟨hcmd, hadmin, hmounted, by rw [hexec]; simp⟩, rfl⟩
        | failed ran =>
            cases ran with
            | true => exact .inl ⟨⟨hcmd, hadmin, hmounted, by rw [hexec]; simp⟩, rfl⟩
            | false => exact .inr ⟨fun h => h.2.2.2 hexec, rfl⟩
  · rw [if_pos hadmin]
    exact .inr ⟨fun h => hadmin h.2.1, rfl⟩

/-- The radio sector after a command that has a handler of its own. -/
theorem command_handled {d : Device} {env : FrameEnv} {p : List UInt8}
    {r : BridgeStatus × Device} (hne : byteOf p 0 ≠ 0) (h : bridgeCommand d env p = some r) :
    (bleHandleAuthenticatedCommand d env p).2.radio = r.2.radio := by
  have hlen : ¬p.length = 0 := by
    intro hlen
    rw [List.length_eq_zero_iff.mp hlen] at hne
    exact hne rfl
  unfold bleHandleAuthenticatedCommand
  rw [if_neg hlen, h]

/-- A command leaves the sector as it was or with a record, unless it
erases it. -/
theorem command_sector (d : Device) (env : FrameEnv) (p : List UInt8) :
    (ClearsRadio d env p ∧ (bleHandleAuthenticatedCommand d env p).2.radio = erasedSector) ∨
      (¬ClearsRadio d env p ∧
        ((bleHandleAuthenticatedCommand d env p).2.radio = d.radio ∨
          (radioProvisionFlashRead (bleHandleAuthenticatedCommand d env p).2.radio).isSome)) := by
  by_cases hclear : byteOf p 0 = bleCmdClearRadio
  · have hcommand : bridgeCommand d env p = some (bleHandleClearRadio d env) := by
      unfold bridgeCommand
      rw [hclear]
      rfl
    rw [command_handled (by rw [hclear]; decide) hcommand]
    rcases @clearRadio_sector d env p hclear with h | ⟨hno, hsame⟩
    · exact .inl h
    · exact .inr ⟨hno, .inl hsame⟩
  · refine .inr ⟨fun h => hclear h.1, ?_⟩
    rcases command_radio d env p with hsame | ⟨hset | hclear', -⟩
    · exact .inl hsame
    · have hcommand : bridgeCommand d env p = some (bleHandleSetRadio d env p) := by
        unfold bridgeCommand
        rw [hset]
        rfl
      rw [command_handled (by rw [hset]; decide) hcommand]
      exact setRadio_sector d env p
    · exact absurd hclear' hclear

theorem clearRadio_command {d : Device} {env : FrameEnv} {p : List UInt8}
    (hcmd : byteOf p 0 = bleCmdClearRadio) :
    (bleHandleAuthenticatedCommand d env p).2.cmdAckStatus
      = (bleHandleClearRadio d env).1.toByte := by
  have hlen : ¬p.length = 0 := by
    intro hlen
    rw [List.length_eq_zero_iff.mp hlen] at hcmd
    exact absurd hcmd (by decide)
  have hcommand : bridgeCommand d env p = some (bleHandleClearRadio d env) := by
    unfold bridgeCommand
    rw [hcmd]
    rfl
  unfold bleHandleAuthenticatedCommand
  rw [if_neg hlen, hcommand]

/-- The CLEAR_RADIOs answered BRIDGE_OK are those that are carried out and
reported so by the flash driver. -/
theorem clearAnswered_iff {d : Device} {env : FrameEnv} {p : List UInt8} :
    clearAnswered d env p = true ↔ ClearsRadio d env p ∧ env.radioExec = .ok := by
  unfold clearAnswered ClearsRadio
  rw [Bool.and_eq_true, beq_iff_eq, beq_iff_eq]
  by_cases hcmd : byteOf p 0 = bleCmdClearRadio
  · have hbyte : (bleHandleClearRadio d env).1.toByte = BridgeStatus.ok.toByte
        ↔ (bleHandleClearRadio d env).1 = .ok := ⟨toByte_ok, congrArg _⟩
    rw [clearRadio_command hcmd, hbyte]
    unfold bleHandleClearRadio radioProvisionFlashClear
    by_cases hadmin : controllerStoreIsAdmin d.controllers d.noise.noiseAuthenticatedSlot = true
    · cases hmounted : env.tudMounted with
      | true => simp [hadmin]
      | false =>
          cases hexec : env.radioExec with
          | failed ran => simp [hadmin]
          | ok =>
              have herased : ∀ i, run [.erase] d.radio i = 0xff := fun _ => rfl
              simp only [hcmd, hadmin, herased, implies_true, decide_true, if_true, if_false,
                not_true_eq_false, Bool.false_eq_true, ne_eq, reduceCtorEq, not_false_eq_true,
                and_self]
    · simp [hadmin]
  · simp [hcmd]

-- ================================================================= the polls

/-- An attempt has the credentials of the record that the poll reads. -/
theorem attempts_read {env : WifiEnv} {n : NetEndpoint} {ssid psk : List UInt8}
    (h : .connect ssid psk ∈ netRadioCalls env n) :
    ∃ cfg, radioProvisionFlashRead n.device.radio = some cfg ∧ ssid = cfg.ssid ∧ psk = cfg.psk := by
  unfold netRadioCalls at h
  cases hstate : n.netState with
  | noRecord => simp [hstate] at h
  | ready => simp [hstate] at h
  | connecting =>
      rw [hstate] at h
      dsimp only at h
      split at h
      · simp at h
      · split at h <;> simp at h
  | retryWait =>
      rw [hstate] at h
      dsimp only at h
      split at h
      · simp at h
      · split at h
        · simp at h
        · cases hread : radioProvisionFlashRead n.device.radio with
          | none => simp [hread] at h
          | some cfg =>
              rw [hread] at h
              simp only [List.mem_cons, reduceCtorEq, RadioCall.connect.injEq, List.not_mem_nil,
                or_false, false_or] at h
              exact ⟨cfg, rfl, h⟩

theorem wifiPoll_radio (env : WifiEnv) (n : NetEndpoint) :
    (wifiPoll env n).1.device = n.device ∧ (wifiPoll env n).2.radio = n.device.radio := by
  have hdevice := netEndpointPoll_device (env.reading n.device.radio) n
  exact ⟨hdevice, congrArg Device.radio hdevice⟩

/-- How a poll gets to CONNECTING and to READY. -/
theorem poll_state (env : NetPollEnv) (n : NetEndpoint) :
    let m := (netEndpointPoll env n).1
    (m.netState = .connecting → n.netState = .connecting ∨ n.netState = .ready ∨
      n.netState = .retryWait ∧ 0 ≤ (env.nowMs - n.netRetryAtMs).toInt32 ∧
        (env.haveIp = true ∨ env.radioRecord = true)) ∧
    (m.netState = .ready →
      n.netState = .ready ∧ m.netListenerOk = n.netListenerOk ∨
      n.netState = .connecting ∧ m.netListenerOk = true) := by
  unfold netEndpointPoll
  cases hstate : n.netState with
  | noRecord => simp [hstate]
  | ready =>
      dsimp only
      by_cases hip : env.haveIp = true
      · rw [if_pos hip]
        exact ⟨fun _ => .inr (.inl rfl), fun _ => .inl ⟨rfl, rfl⟩⟩
      · rw [if_neg hip]
        exact ⟨fun _ => .inr (.inl rfl), fun h => by cases h⟩
  | retryWait =>
      dsimp only
      by_cases hdue : (env.nowMs - n.netRetryAtMs).toInt32 < 0
      · rw [if_pos hdue]
        simp [hstate]
      rw [if_neg hdue]
      rw [Int32.not_lt] at hdue
      by_cases hip : env.haveIp = true
      · rw [if_pos hip]
        exact ⟨fun _ => .inr (.inr ⟨rfl, hdue, .inl hip⟩), fun h => by cases h⟩
      rw [if_neg hip]
      by_cases hrecord : env.radioRecord = true
      · rw [if_neg (not_not_intro hrecord)]
        refine ⟨fun _ => .inr (.inr ⟨rfl, hdue, .inr hrecord⟩), ?_⟩
        by_cases hconnect : env.connectOk = true
        · rw [if_neg (not_not_intro hconnect)]
          exact fun h => by cases h
        · rw [if_pos hconnect]
          simp [netRetryLater, hstate]
      · rw [if_pos hrecord]
        exact ⟨fun h => (by cases h), fun h => (by cases h)⟩
  | connecting =>
      dsimp only
      refine ⟨fun _ => .inl rfl, fun h => .inr ⟨rfl, ?_⟩⟩
      revert h
      have hkept : (if env.haveIp = true then
          { n with
            netState := .connecting
            netListenerOk := n.netListener || env.listenOk
            netListener := n.netListener || env.listenOk } else n).netState = .connecting := by
        cases env.haveIp
        · exact hstate
        · rfl
      generalize (if env.haveIp = true then _ else n : NetEndpoint) = m at hkept ⊢
      by_cases hready : env.haveIp = true ∧ m.netListenerOk = true
      · rw [if_pos hready]
        exact fun _ => hready.2
      · rw [if_neg hready]
        by_cases hlate : 0 ≤ (env.nowMs - m.netRetryAtMs).toInt32 ∧ env.linkBelowJoin = true
        · rw [if_pos hlate]
          exact fun h => by cases h
        · rw [if_neg hlate]
          exact fun h => absurd (hkept.symm.trans h) (by decide)

theorem netSessionClose_listener (pcb : Option Pcb) (n : NetEndpoint) :
    (netSessionClose pcb n).1.netListener = n.netListener := by
  cases pcb <;> rfl

/-- A poll never takes the listener away. -/
theorem poll_listener (env : NetPollEnv) {n : NetEndpoint} (h : n.netListener = true) :
    (netEndpointPoll env n).1.netListener = true := by
  unfold netEndpointPoll
  cases n.netState with
  | noRecord => exact h
  | ready =>
      dsimp only
      split
      · exact h
      · exact (netSessionClose_listener n.netSessionPcb n).trans h
  | retryWait =>
      dsimp only
      split
      · exact h
      split
      · exact h
      split
      · exact h
      · split <;> exact h
  | connecting =>
      dsimp only
      have harmed : (if env.haveIp = true then
          { n with
            netState := .connecting
            netListenerOk := n.netListener || env.listenOk
            netListener := n.netListener || env.listenOk } else n).netListener = true := by
        cases env.haveIp
        · exact h
        · exact congrArg (· || env.listenOk) h
      generalize (if env.haveIp = true then _ else n : NetEndpoint) = m at harmed ⊢
      split
      · exact harmed
      · split <;> exact harmed

/-- Nor does it leave station mode off. -/
theorem poll_sta (env : WifiEnv) (n : NetEndpoint) :
    (netRadioCalls env n).foldl RadioCall.sta true = true := by
  unfold netRadioCalls
  cases n.netState with
  | noRecord => rfl
  | ready => rfl
  | retryWait =>
      dsimp only
      split
      · rfl
      split
      · rfl
      · split <;> rfl
  | connecting =>
      dsimp only
      split
      · rfl
      · split <;> rfl

/-- A poll without a record, of an endpoint that is not CONNECTING or
READY, does nothing to the radio and arms no listener unless it finds an
address in time. -/
theorem poll_passive {env : WifiEnv} {n : NetEndpoint} (hidle : ¬n.active)
    (hread : radioProvisionFlashRead n.device.radio = none)
    (hip : n.netState = .retryWait → 0 ≤ (env.nowMs - n.netRetryAtMs).toInt32 →
      ¬env.haveIp = true) :
    netRadioCalls env n = [] ∧ (wifiPoll env n).1.netListener = n.netListener := by
  unfold wifiPoll netRadioCalls netEndpointPoll
  cases hstate : n.netState with
  | noRecord => exact ⟨rfl, rfl⟩
  | connecting => exact absurd (.inl hstate) hidle
  | ready => exact absurd (.inr hstate) hidle
  | retryWait =>
      by_cases hdue : (env.nowMs - n.netRetryAtMs).toInt32 < 0
      · simp only [WifiEnv.reading, hdue, if_true, and_self]
      · have hno := hip hstate (Int32.not_lt.mp hdue)
        simp only [WifiEnv.reading, hdue, hno, hread, if_false, Option.isSome_none,
          Bool.false_eq_true, not_false_eq_true, if_true, and_self]

-- ================================================================== the runs

/-- A CLEAR_RADIO that is carried out leaves no record. -/
theorem clears_unreadable {s : WifiSide} {env : FrameEnv} {p : List UInt8}
    (h : ClearsRadio s.endpoint.device env p) : radioProvisionFlashRead
      (wifiMachine.step s (.command env p)).1.endpoint.device.radio = none := by
  show radioProvisionFlashRead
    (bleHandleAuthenticatedCommand s.endpoint.device env p).2.radio = none
  rcases command_sector s.endpoint.device env p with ⟨-, herased⟩ | ⟨hno, -⟩
  · rw [herased]
    exact erased_unreadable
  · exact absurd h hno

/-- And where the flash driver says so too, it is answered BRIDGE_OK. -/
theorem clears_step {s : WifiSide} {env : FrameEnv} {p : List UInt8}
    (h : ClearsRadio s.endpoint.device env p) (hok : env.radioExec = .ok) :
    let s' := (wifiMachine.step s (.command env p)).1
    s'.cleared = true ∧ s'.endpoint.device.cmdAckStatus = BridgeStatus.ok.toByte := by
  have hanswered := clearAnswered_iff.mpr ⟨h, hok⟩
  refine ⟨?_, eq_of_beq ((Bool.and_eq_true _ _).mp hanswered).2⟩
  let after := (wifiMachine.step s (.command env p)).1.endpoint.device
  show ((radioProvisionFlashRead after.radio).isNone
    && (s.cleared || clearAnswered s.endpoint.device env p)) = true
  rw [clears_unreadable h, hanswered, Bool.or_true]
  rfl

/-- A command does not move the endpoint. -/
theorem command_active {s : WifiSide} {env : FrameEnv} {p : List UInt8} :
    (wifiMachine.step s (.command env p)).1.endpoint.active ↔ s.endpoint.active := Iff.rfl

/-- READY has its listener. -/
def Listening (n : NetEndpoint) : Prop := n.netState = .ready → n.netListenerOk = true

/-- CONNECTING and READY have a record, and a cleared endpoint has none,
with station mode off and no listener. -/
structure Recorded (s : WifiSide) : Prop where
  active : s.endpoint.active → (radioProvisionFlashRead s.endpoint.device.radio).isSome
  cleared : s.cleared = true →
    radioProvisionFlashRead s.endpoint.device.radio = none ∧ s.sta = false ∧
      s.endpoint.netListener = false

theorem start_state (radioRecord : Bool) (n : NetEndpoint) :
    (netEndpointStart radioRecord n).netState = .noRecord ∨
      (netEndpointStart radioRecord n).netState = .retryWait := by
  cases radioRecord
  · exact .inl rfl
  · exact .inr rfl

/-- A start leaves the endpoint idle, and its listener as it was. -/
theorem start_keeps (radioRecord : Bool) (n : NetEndpoint) :
    ¬(netEndpointStart radioRecord n).active ∧
      (netEndpointStart radioRecord n).device = n.device ∧
      (netEndpointStart radioRecord n).netListener = n.netListener := by
  constructor
  · rcases start_state radioRecord n with h | h <;> simp [NetEndpoint.active, h]
  · cases radioRecord
    · exact ⟨rfl, rfl⟩
    · exact ⟨rfl, rfl⟩

theorem step_listening {s : WifiSide} (h : Listening s.endpoint) (i : WifiInput) :
    Listening (wifiMachine.step s i).1.endpoint := by
  cases i with
  | start =>
      intro hready
      have hidle := (start_keeps (radioProvisionFlashRead s.endpoint.device.radio).isSome
        s.endpoint).1
      exact absurd (.inr hready) hidle
  | poll env =>
      intro hready
      rcases (poll_state (env.reading s.endpoint.device.radio) s.endpoint).2 hready with
        ⟨hbefore, hsame⟩ | ⟨-, hok⟩
      · exact hsame.trans (h hbefore)
      · exact hok
  | command env p => exact h

/-- What a poll that meets the condition leaves. -/
theorem poll_recorded {s : WifiSide} (h : Recorded s) {env : WifiEnv}
    (hi : KeepsRecord s (.poll env)) :
    (wifiPoll env s.endpoint).1.active →
      (radioProvisionFlashRead s.endpoint.device.radio).isSome := by
  obtain ⟨hconnecting, hready⟩ :=
    poll_state (env.reading s.endpoint.device.radio) s.endpoint
  intro hactive
  rcases hactive with hafter | hafter
  · rcases hconnecting hafter with hbefore | hbefore | ⟨hretry, hdue, hip | hrecord⟩
    · exact h.active (.inl hbefore)
    · exact h.active (.inr hbefore)
    · exact hi hretry hdue hip
    · exact hrecord
  · rcases hready hafter with ⟨hbefore, -⟩ | ⟨hbefore, -⟩
    · exact h.active (.inr hbefore)
    · exact h.active (.inl hbefore)

theorem step_recorded {s : WifiSide} (h : Recorded s) {i : WifiInput} (hi : KeepsRecord s i) :
    Recorded (wifiMachine.step s i).1 := by
  cases i with
  | start =>
      obtain ⟨hidle, hdevice, hlistener⟩ :=
        start_keeps (radioProvisionFlashRead s.endpoint.device.radio).isSome s.endpoint
      refine ⟨fun hactive => absurd hactive hidle, fun hcleared => ?_⟩
      obtain ⟨hread, hsta, hoff⟩ := h.cleared hcleared
      exact ⟨(congrArg (radioProvisionFlashRead ·.radio) hdevice).trans hread, hsta,
        hlistener.trans hoff⟩
  | poll env =>
      refine ⟨fun hactive => ?_, fun hcleared => (by cases hcleared)⟩
      show (radioProvisionFlashRead (wifiPoll env s.endpoint).1.device.radio).isSome
      rw [(wifiPoll_radio env s.endpoint).1]
      exact poll_recorded h hi hactive
  | command env p =>
      obtain ⟨hactive, hpassive⟩ := hi
      constructor
      · intro hnow
        rcases command_sector s.endpoint.device env p with ⟨hclears, -⟩ | ⟨-, hsame | hread⟩
        · exact absurd hclears (hactive hnow)
        · show (radioProvisionFlashRead
            (bleHandleAuthenticatedCommand s.endpoint.device env p).2.radio).isSome
          rw [hsame]
          exact h.active hnow
        · exact hread
      · intro hcleared
        obtain ⟨hnone, hwhen⟩ := (Bool.and_eq_true _ _).mp hcleared
        refine ⟨Option.isNone_iff_eq_none.mp hnone, ?_⟩
        rcases Bool.or_eq_true_iff.mp hwhen with hbefore | hanswered
        · exact (h.cleared hbefore).2
        · -- cleared just now: the condition has nothing on
          have hoff : ¬(s.sta = true ∨ s.endpoint.netListener = true) :=
            fun hon => hpassive hon (clearAnswered_iff.mp hanswered)
          rwa [not_or, Bool.not_eq_true, Bool.not_eq_true] at hoff

/-- A poll that meets the condition is seen to fail closed. -/
theorem poll_failClosed {s : WifiSide} (h : Recorded s) {env : WifiEnv}
    (hi : KeepsRecord s (.poll env)) :
    ∀ r ∈ (wifiMachine.step s (.poll env)).2, r.FailClosed := by
  intro r hr
  rw [List.mem_singleton.mp hr]
  have hradio := (wifiPoll_radio env s.endpoint).2
  constructor
  · intro ssid psk hcall
    show ∃ cfg, radioProvisionFlashRead (wifiPoll env s.endpoint).2.radio = some cfg ∧ _
    rw [hradio]
    exact attempts_read hcall
  · intro hready _
    show (radioProvisionFlashRead (wifiPoll env s.endpoint).2.radio).isSome
    rw [hradio]
    exact poll_recorded h hi (.inr hready)
  · intro hcleared
    obtain ⟨hread, hsta, hoff⟩ := h.cleared hcleared
    have hidle : ¬s.endpoint.active := by
      intro hactive
      have hsome := h.active hactive
      rw [hread] at hsome
      cases hsome
    have hip : s.endpoint.netState = .retryWait →
        0 ≤ (env.nowMs - s.endpoint.netRetryAtMs).toInt32 → ¬env.haveIp = true := by
      intro hretry hdue hip
      have hsome := hi hretry hdue hip
      rw [hread] at hsome
      cases hsome
    obtain ⟨hcalls, hlistener⟩ := poll_passive hidle hread hip
    refine ⟨?_, hlistener.trans hoff⟩
    show (netRadioCalls env s.endpoint).foldl RadioCall.sta s.sta = false
    rw [hcalls]
    exact hsta

/-- A poll of a READY endpoint that finds an address. -/
def readyPoll : WifiEnv := ⟨0, true, true, true, false⟩

/-- A poll that finds no address. -/
def addresslessPoll : WifiEnv := ⟨3000, false, true, true, false⟩

/-- An endpoint that is CONNECTING or READY without a record is READY
after a poll that finds an address. -/
theorem active_unsound {s : WifiSide} (hlistening : Listening s.endpoint)
    (hactive : s.endpoint.active)
    (hread : radioProvisionFlashRead s.endpoint.device.radio = none) :
    ∃ r ∈ (wifiMachine.step s (.poll readyPoll)).2, ¬r.FailClosed := by
  refine ⟨_, List.mem_singleton_self _, fun h => ?_⟩
  have hafter : (wifiPoll readyPoll s.endpoint).2.netState = .ready ∧
      (wifiPoll readyPoll s.endpoint).2.netListenerOk = true := by
    unfold wifiPoll netEndpointPoll
    rcases hactive with hstate | hstate
    · rw [hstate]
      simp [readyPoll, WifiEnv.reading]
    · rw [hstate]
      exact ⟨hstate, hlistening hstate⟩
  have hrecord : (radioProvisionFlashRead (wifiPoll readyPoll s.endpoint).2.radio).isSome :=
    h.passive hafter.1 hafter.2
  rw [(wifiPoll_radio readyPoll s.endpoint).2, hread] at hrecord
  cases hrecord

/-- A cleared endpoint whose station mode is on or whose listener is armed
stays so. -/
theorem cleared_unsound {s : WifiSide} (hcleared : s.cleared = true)
    (hon : s.sta = true ∨ s.endpoint.netListener = true) (env : WifiEnv) :
    ∃ r ∈ (wifiMachine.step s (.poll env)).2, ¬r.FailClosed := by
  refine ⟨_, List.mem_singleton_self _, fun h => ?_⟩
  obtain ⟨hsta, hlistener⟩ := h.closed hcleared
  rcases hon with hon | hon
  · have hstays : (netRadioCalls env s.endpoint).foldl RadioCall.sta s.sta = true := by
      rw [hon]
      exact poll_sta env s.endpoint
    exact absurd (hstays.symm.trans hsta) (by simp)
  · have hstays := poll_listener (env.reading s.endpoint.device.radio) hon
    exact absurd (hstays.symm.trans hlistener) (by simp)

/-- After a step that does not meet the condition, two polls at most are
seen not to fail closed. -/
theorem record_lost {s : WifiSide} (hlistening : Listening s.endpoint) {i : WifiInput}
    (hi : ¬KeepsRecord s i) :
    ∃ polls : List WifiEnv,
      ∃ r ∈ wifiMachine.trace s (i :: polls.map .poll), ¬r.FailClosed := by
  have hlater : ∀ env, (∃ r ∈ (wifiMachine.step (wifiMachine.step s i).1 (.poll env)).2,
      ¬r.FailClosed) → ∃ polls : List WifiEnv,
        ∃ r ∈ wifiMachine.trace s (i :: polls.map .poll), ¬r.FailClosed := by
    intro env h
    obtain ⟨r, hr, hunsound⟩ := h
    refine ⟨[env], r, ?_, hunsound⟩
    rw [Machine.trace_cons]
    refine List.mem_append_right _ ?_
    rw [List.map_singleton, Machine.trace_cons, Machine.trace_nil, List.append_nil]
    exact hr
  cases i with
  | start => exact absurd trivial hi
  | poll env =>
      simp only [KeepsRecord, not_forall, Bool.not_eq_true, Option.isSome_eq_false_iff,
        Option.isNone_iff_eq_none] at hi
      obtain ⟨hretry, hdue, hip, hread⟩ := hi
      refine hlater readyPoll (active_unsound (step_listening hlistening _) (.inl ?_) ?_)
      · show (netEndpointPoll (env.reading s.endpoint.device.radio) s.endpoint).1.netState = _
        unfold netEndpointPoll
        have hnow : ¬((env.reading s.endpoint.device.radio).nowMs
            - s.endpoint.netRetryAtMs).toInt32 < 0 := Int32.not_lt.mpr hdue
        have hip : (env.reading s.endpoint.device.radio).haveIp = true := hip
        rw [hretry]
        dsimp only
        rw [if_neg hnow, if_pos hip]
      · show radioProvisionFlashRead (wifiPoll env s.endpoint).1.device.radio = none
        rw [(wifiPoll_radio env s.endpoint).1]
        exact hread
  | command env p =>
      rcases Classical.not_and_iff_not_or_not.mp hi with hactive | hon
      · obtain ⟨hactive, hclears⟩ := Classical.not_imp.mp hactive
        exact hlater readyPoll (active_unsound (step_listening hlistening _)
          (command_active.mpr hactive) (clears_unreadable (not_not.mp hclears)))
      · obtain ⟨hon, hclears⟩ := Classical.not_imp.mp hon
        obtain ⟨hclears, hok⟩ := not_not.mp hclears
        exact hlater readyPoll (cleared_unsound (clears_step hclears hok).1 hon readyPoll)

/-- The endpoint fails closed, over every run of starts, polls and
commands, as long as no record is erased while it is CONNECTING or READY,
none is cleared once station mode is on or the listener armed, and no retry
finds an address without one: every association attempt has the
credentials of the record in the sector, READY with a listener has a record
there, and the poll after a CLEAR_RADIO leaves neither station mode on nor
a listener. After a step that is not so, polls follow that do not fail
closed. -/
theorem wifi_fail_closed (device : Device) (is : List WifiInput) :
    wifiMachine.StepsMeet KeepsRecord (wifiInit device) is →
      (∀ r ∈ wifiMachine.trace (wifiInit device) is, r.FailClosed) ∧
      ∀ i, ¬KeepsRecord (wifiMachine.final (wifiInit device) is) i →
        ∃ polls : List WifiEnv,
          ∃ r ∈ wifiMachine.trace (wifiInit device) (is ++ i :: polls.map .poll),
            ¬r.FailClosed := by
  intro hmeet
  have hboot : Recorded (wifiInit device) := by
    constructor
    · intro hactive
      rcases hactive with h | h <;> cases h
    · intro hcleared
      cases hcleared
  refine ⟨?_, fun i hi => ?_⟩
  · have hrun := wifiMachine.run_inv (G := KeepsRecord)
      (P := fun s rs => Recorded s ∧ ∀ r ∈ rs, WifiSeen.FailClosed r) ?_ is (wifiInit device) []
      ⟨hboot, by simp⟩ hmeet
    · exact hrun.2
    intro s rs i h hi
    refine ⟨step_recorded h.1 hi, fun r hr => ?_⟩
    rcases List.mem_append.mp hr with hr | hr
    · exact h.2 r hr
    cases i with
    | start => cases hr
    | command env p => cases hr
    | poll env => exact poll_failClosed h.1 hi r hr
  · have hlistening : Listening (wifiMachine.final (wifiInit device) is).endpoint :=
      wifiMachine.final_inv (P := fun s => Listening s.endpoint)
        (fun _ i h => step_listening h i) (fun h => by cases h) is
    obtain ⟨polls, r, hr, hunsound⟩ := record_lost hlistening hi
    refine ⟨polls, r, ?_, hunsound⟩
    rw [Machine.trace_append]
    exact List.mem_append_right _ hr

/-- A device with a record for the network "pico", and the session of its
recovery admin. -/
def radioDevice : Device :=
  { benchDevice with
    noise := { noiseIkCtxZero with ready := true, authenticatedSlot := 0 }
    radio := fun i => (radioRecord [112, 105, 99, 111] [112, 97, 115, 115, 119, 111, 114, 100]).getD
      i 0xff }

theorem radioDevice_reads : (radioProvisionFlashRead radioDevice.radio).isSome := by
  have htotal : leAt radioDevice.radio 10 2 = 36 := by decide +kernel
  have hpadding : (bytesAt radioDevice.radio 36 (radioSectorSize - 36)).all (· == 255) = true := by
    refine List.all_eq_true.mpr fun b hb => ?_
    obtain ⟨i, hi, rfl⟩ := List.mem_map.mp hb
    rw [List.mem_range, radioSectorSize] at hi
    rw [byteAt_eq _ (show 36 + i < 4096 by omega)]
    show (List.getD _ (36 + i) 0xff == 255) = true
    rw [List.getD_eq_getElem?_getD, List.getElem?_eq_none (Nat.le_add_right 36 i)]
    rfl
  unfold radioProvisionFlashRead radioConfigParse2 parseCommon
  dsimp only
  rw [htotal, if_neg (by decide), if_neg (by decide +kernel), if_neg (by decide +kernel),
    if_neg (by simp), if_neg (by decide +kernel), if_neg (by decide +kernel),
    if_neg (by decide +kernel), if_neg (by decide +kernel), if_neg (not_not_intro hpadding),
    if_neg (by decide +kernel)]
  rfl

/-- Joining, up to READY. -/
def joins : List WifiInput :=
  [.start, .poll ⟨0, false, true, true, false⟩, .poll ⟨1000, true, true, true, false⟩]

/-- Starting with a record. -/
theorem starts_waiting {device : Device}
    (hread : (radioProvisionFlashRead device.radio).isSome) :
    (wifiMachine.step (wifiInit device) .start).1
      = { wifiInit device with
          endpoint := { netEndpointInit device with netState := .retryWait } } := by
  show (⟨netEndpointStart (radioProvisionFlashRead device.radio).isSome _, _, _⟩ : WifiSide) = _
  rw [hread]
  rfl

/-- And the first attempt. -/
theorem joins_connecting {device : Device}
    (hread : (radioProvisionFlashRead device.radio).isSome) :
    wifiMachine.final (wifiInit device) (joins.take 2)
      = ⟨{ netEndpointInit device with netState := .connecting, netRetryAtMs := 20000 },
          true, false⟩ := by
  show (wifiMachine.step (wifiMachine.step (wifiInit device) .start).1 _).1 = _
  rw [starts_waiting hread]
  have hnow : ¬(0 - (netEndpointInit device).netRetryAtMs).toInt32 < 0 := by
    show ¬((0 : UInt32) - 0).toInt32 < 0
    decide
  have hread : (radioProvisionFlashRead (netEndpointInit device).device.radio).isSome := hread
  have hpoll : (wifiPoll ⟨0, false, true, true, false⟩
      { netEndpointInit device with netState := .retryWait }).1
      = { netEndpointInit device with netState := .connecting, netRetryAtMs := 20000 } := by
    unfold wifiPoll netEndpointPoll WifiEnv.reading
    dsimp only
    rw [if_neg hnow, if_neg Bool.false_ne_true, if_neg (not_not_intro hread)]
    rfl
  have hcalls : (netRadioCalls ⟨0, false, true, true, false⟩
      { netEndpointInit device with netState := .retryWait }).foldl RadioCall.sta false = true := by
    obtain ⟨cfg, hcfg⟩ := Option.isSome_iff_exists.mp hread
    unfold netRadioCalls
    dsimp only
    rw [if_neg hnow, if_neg Bool.false_ne_true, hcfg]
    rfl
  exact congrArg₂ (fun n sta => (⟨n, sta, false⟩ : WifiSide)) hpoll hcalls

/-- And the address. -/
theorem joins_ready {device : Device} (hread : (radioProvisionFlashRead device.radio).isSome) :
    wifiMachine.final (wifiInit device) joins
      = ⟨{ netEndpointInit device with
            netState := .ready
            netRetryAtMs := 20000
            netListenerOk := true
            netListener := true }, true, false⟩ := by
  have hsplit : joins = joins.take 2 ++ [.poll ⟨1000, true, true, true, false⟩] := rfl
  rw [hsplit, Machine.final_append, joins_connecting hread]
  rfl

/-- A CLEAR_RADIO of the recovery admin, with no host at the USB port. -/
def clearingEnv : FrameEnv := { envAt 2000 with tudMounted := false }

theorem clearing_clears : ClearsRadio radioDevice clearingEnv [bleCmdClearRadio] :=
  ⟨rfl, by decide +kernel, rfl, by simp [clearingEnv, envAt]⟩

/-- What a poll is seen with. -/
theorem poll_seen (s : WifiSide) (env : WifiEnv) :
    (wifiMachine.step s (.poll env)).2.map WifiSeen.cleared = [s.cleared] := rfl

/-- Joining fails closed, and so does an endpoint whose record is cleared
before its first attempt. -/
theorem wifi_fail_closed_joins :
    let early := [.start, .command clearingEnv [bleCmdClearRadio], .poll addresslessPoll]
    (∀ r ∈ wifiMachine.trace (wifiInit radioDevice) joins, r.FailClosed) ∧
      (∀ r ∈ wifiMachine.trace (wifiInit radioDevice) early, r.FailClosed) ∧
      (wifiMachine.trace (wifiInit radioDevice) early).map WifiSeen.cleared = [true] := by
  intro early
  have hstart := starts_waiting radioDevice_reads
  refine ⟨(wifi_fail_closed radioDevice joins ?_).1, (wifi_fail_closed radioDevice early ?_).1, ?_⟩
  · have hsplit : joins = joins.take 2 ++ [.poll ⟨1000, true, true, true, false⟩] := rfl
    rw [hsplit, Machine.stepsMeet_append, joins_connecting radioDevice_reads]
    exact ⟨⟨trivial, fun _ _ h => (by cases h), trivial⟩, fun h => (by cases h), trivial⟩
  · refine ⟨trivial, ⟨fun hactive => ?_, fun hon => ?_⟩, fun _ _ h => (by cases h), trivial⟩
    · rw [hstart] at hactive
      rcases hactive with h | h <;> cases h
    · rw [hstart] at hon
      rcases hon with h | h <;> cases h
  · have hclears : ClearsRadio (wifiMachine.step (wifiInit radioDevice) .start).1.endpoint.device
        clearingEnv [bleCmdClearRadio] := by
      rw [hstart]
      exact clearing_clears
    have hcleared := (clears_step hclears rfl).1
    rw [Machine.trace_cons, Machine.trace_cons, Machine.trace_cons, Machine.trace_nil,
      List.append_nil, List.map_append, List.map_append, poll_seen, hcleared]
    rfl

/-- CLEAR_RADIO on a READY endpoint answers BRIDGE_OK, and the next poll
is READY without a record. -/
theorem cleared_stays_ready :
    let is := joins ++ [.command clearingEnv [bleCmdClearRadio]]
    (wifiMachine.final (wifiInit radioDevice) is).endpoint.device.cmdAckStatus
        = BridgeStatus.ok.toByte ∧
      ¬∀ r ∈ wifiMachine.trace (wifiInit radioDevice) (is ++ [.poll readyPoll]),
        r.FailClosed := by
  intro is
  generalize hready : wifiMachine.final (wifiInit radioDevice) joins = ready
  have hcleared : wifiMachine.final (wifiInit radioDevice) is
      = (wifiMachine.step ready (.command clearingEnv [bleCmdClearRadio])).1 := by
    rw [← hready, Machine.final_append, Machine.final_cons, Machine.final_nil]
  rw [joins_ready radioDevice_reads] at hready
  have hclears : ClearsRadio ready.endpoint.device clearingEnv [bleCmdClearRadio] := by
    rw [← hready]
    exact clearing_clears
  refine ⟨?_, fun h => ?_⟩
  · rw [hcleared]
    exact (clears_step hclears rfl).2
  · have hlistening : Listening ready.endpoint := by
      rw [← hready]
      exact fun _ => rfl
    have hactive : ready.endpoint.active := by
      rw [← hready]
      exact .inr rfl
    obtain ⟨r, hr, hunsound⟩ := active_unsound (step_listening hlistening
      (.command clearingEnv [bleCmdClearRadio])) (command_active.mpr hactive)
      (clears_unreadable hclears)
    refine hunsound (h r ?_)
    rw [Machine.trace_append, hcleared]
    refine List.mem_append_right _ ?_
    rw [Machine.trace_cons, Machine.trace_nil, List.append_nil]
    exact hr

end PicoBridge
