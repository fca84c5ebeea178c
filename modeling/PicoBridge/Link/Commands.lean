/-
From the host's command to the device's core: `build_*_packet`, sealed by
`encrypt_packet`, and `command_process_frame`.

# The two codecs

The host writes the fields of a packet where the handlers read them
(Device/Packets.lean), and a frame that the host seals opens on a device
in step with it (`Synced`). So the device makes exactly the call that the
host was asked for (`Decoded`).

# The limits

A stage of 1024 bytes is a plaintext of 1038, which is the device's limit,
and a frame of 1063; both receive buffers take it, and its fragments are
numbered in seven bits (`FrameFits`).
-/
import PicoBridge.Device.Frame
import PicoBridge.Device.Packets
import PicoBridge.Device.Policy
import PicoBridge.Link.Agree

namespace PicoBridge

variable {lib : Crypto}

-- =============================================================== in step

/-- The two ends of a session, with their keys and counters in
agreement. -/
structure Synced (host : NoiseIKInitiator) (ctx : NoiseIkCtx) : Prop where
  ready : ctx.ready = true
  toDevice : host.sendKey = some ctx.receiveKey
  toHost : host.receiveKey = some ctx.sendKey
  sending : host.sendNonce = ctx.receiveNonce.toNat
  receiving : host.receiveNonce = ctx.sendNonce.toNat

theorem Synced.isReady {host : NoiseIKInitiator} {ctx : NoiseIkCtx} (h : Synced host ctx) :
    host.isReady = true := by
  unfold NoiseIKInitiator.isReady
  rw [h.toDevice, h.toHost]
  rfl

-- =============================================================== the limits

/-- What a frame and its plaintext have to fit. -/
structure FrameFits (plaintext frame : List UInt8) : Prop where
  plaintext : plaintext.length ≤ noiseIkMaxPlaintext
  ble : frame.length ≤ bleCmdBufMax
  tcp : 4 + frame.length ≤ netFrameMax
  fragments : ∃ fragments, fragmentPacket frame = some fragments ∧ fragments.length ≤ 128

/-- Fragments are numbered below 128. -/
theorem fragmentFrom_length (n : Nat) : ∀ {seq : Nat} {packet : List UInt8}
    {fragments : List (List UInt8)}, packet.length = n → fragmentFrom seq packet = some fragments →
    fragments ≠ [] → seq + fragments.length ≤ 128 := by
  induction n using Nat.strongRecOn with
  | _ n ih =>
      intro seq packet fragments hn h hne
      rw [fragmentFrom] at h
      split at h
      next =>
        cases h
        exact absurd rfl hne
      next hlen =>
        dsimp only at h
        by_cases hhdr : 2 * seq
            + (if min bleMtuPayload packet.length < packet.length then 1 else 0) > 255
        · rw [if_pos hhdr] at h
          cases h
        · rw [if_neg hhdr] at h
          obtain ⟨rest, hrest, rfl⟩ := Option.map_eq_some_iff.mp h
          have hshort : (packet.drop (min bleMtuPayload packet.length)).length < n := by
            rw [List.length_drop]
            unfold bleMtuPayload
            omega
          have htail := ih _ hshort rfl hrest
          rw [List.length_cons]
          by_cases hnil : rest = []
          · rw [hnil, List.length_nil]
            omega
          · have hbound := htail hnil
            omega

/-- A plaintext of up to 1038 bytes fits. -/
theorem frame_fits {plaintext frame : List UInt8} (h : plaintext.length ≤ noiseIkMaxPlaintext)
    (hframe : frame.length = plaintext.length + 25) : FrameFits plaintext frame := by
  unfold noiseIkMaxPlaintext at h
  obtain ⟨fragments, hfragments⟩ := @fragmentFrom_some frame.length 0 frame rfl (by
    unfold bleMtuPayload
    omega)
  refine ⟨h, ?_, ?_, fragments, hfragments, ?_⟩
  · unfold bleCmdBufMax noiseIkMaxPlaintext
    omega
  · unfold netFrameMax
    omega
  · by_cases hnil : fragments = []
    · rw [hnil]
      exact Nat.zero_le _
    · have hbound := fragmentFrom_length frame.length rfl hfragments hnil
      omega

-- ============================================================== the frame

/-- The device once it has opened a command. -/
def Device.received (d : Device) : Device :=
  { d with noise := { d.noise with receiveNonce := d.noise.receiveNonce + 1 } }

/-- A command that is sealed by a host in step is dispatched. -/
theorem sealed_dispatches (hlib : lib.Lawful) {host : NoiseIKInitiator} {d : Device}
    (hsync : Synced host d.noise) (hmax : d.noise.receiveNonce ≠ uint64Max)
    {plaintext : List UInt8} (hlen : plaintext.length ≤ noiseIkMaxPlaintext) :
    ∃ frame host', encryptPacket lib plaintext host = .ok frame host' ∧
      frame.length = plaintext.length + 25 ∧
      Dispatches lib d frame plaintext d.received := by
  obtain ⟨frame, host', hseal⟩ := encryptPacket_returns hlib hsync.isReady hsync.sending plaintext
  obtain ⟨packet, rfl, hpos, hopen⟩ := decryptPacket_encryptPacket hlib hsync.ready hsync.toDevice
    hsync.sending hmax hlen hseal
  refine ⟨_, host', hseal, (sealed_shape hlib hseal).1, rfl, ?_, _, hopen, rfl⟩
  rw [List.length_cons]
  omega

/-- The dispatcher on a command that answers with a bridge status. -/
theorem command_frame (d : Device) (env : FrameEnv) {data : List UInt8}
    (hlen : data.length ≠ 0) {st : BridgeStatus} {d' : Device}
    (h : bridgeCommand d env data = some (st, d')) :
    bleHandleAuthenticatedCommand d env data = (true, { d' with cmdAckStatus := st.toByte }) := by
  unfold bleHandleAuthenticatedCommand
  rw [if_neg hlen, h]

-- ============================================================ the commands

/-- What is built, sealed and handed to the device is a frame that fits,
and a call of the core with the arguments of the host's. -/
def Decoded (lib : Crypto) (host : NoiseIKInitiator) (d : Device) (env : FrameEnv) (respCap : Nat)
    (packet : Option (List UInt8)) (call : TransportCall) (r : BridgeStatus × BridgeCore) : Prop :=
  ∃ plaintext frame host', packet = some plaintext ∧
    encryptPacket lib plaintext host = .ok frame host' ∧ FrameFits plaintext frame ∧
    commandCall plaintext = some call ∧
    commandProcessFrame lib d env frame respCap
      = sendReceipt lib
          { d.received with core := r.2, cmdAckStatus := r.1.toByte } respCap true

/-- A packet whose command is one of the core's. -/
theorem decoded_of_call (hlib : lib.Lawful) {host : NoiseIKInitiator} {d : Device}
    (hsync : Synced host d.noise) (hmax : d.noise.receiveNonce ≠ uint64Max) (env : FrameEnv)
    (respCap : Nat) {packet : Option (List UInt8)} {plaintext : List UInt8}
    (hpacket : packet = some plaintext) (hpos : plaintext.length ≠ 0)
    (hlen : plaintext.length ≤ noiseIkMaxPlaintext) {call : TransportCall}
    (hcall : commandCall plaintext = some call) {r : BridgeStatus × BridgeCore}
    (hcommand : bridgeCommand d.received env plaintext = some (d.received.onCore r)) :
    Decoded lib host d env respCap packet call r := by
  obtain ⟨frame, host', hseal, hframe, hdispatch⟩ := sealed_dispatches hlib hsync hmax hlen
  refine ⟨plaintext, frame, host', hpacket, hseal, frame_fits hlen hframe, hcall, ?_⟩
  rw [frame_dispatched hdispatch, afterCommand, command_frame _ env hpos hcommand]

/-- The device decodes what the host encodes. For keys and counters in
agreement, every owner, id, layout, mode, flags and text of up to 1024
bytes, and every counter that is not spent: the packet is built and
sealed, its frame fits on both transports, and the device calls the core
with what the host was given. -/
theorem commands_decoded (hlib : lib.Lawful) {host : NoiseIKInitiator} {d : Device}
    (hsync : Synced host d.noise) (hmax : d.noise.receiveNonce ≠ uint64Max) (env : FrameEnv)
    (respCap : Nat) :
    (∀ (owner id layout mode : UInt32) (flags : UInt8) (payload : List UInt8),
      layout = bridgeLayoutUs ∨ layout = bridgeLayoutDe →
      mode = bridgeModePassword ∨ mode = bridgeModeText → payload.length ≤ bridgeMaxInputBytes →
      Decoded lib host d env respCap
        (buildStagePacket owner.toNat id.toNat layout.toNat mode.toNat flags.toNat payload)
        (.stage owner id layout mode flags payload payload.length)
        (bridgeCoreStage d.core owner id layout mode flags (some payload) payload.length
          env.bleNowMs bridgeTtlMs)) ∧
    (∀ owner id : UInt32,
      Decoded lib host d env respCap (buildConfirmPacket owner.toNat id.toNat) (.confirm owner id)
        (bridgeCoreConfirm d.core owner id env.bleNowMs)) ∧
    ∀ owner id : UInt32,
      Decoded lib host d env respCap (buildCancelPacket owner.toNat id.toNat) (.cancel owner id)
        (bridgeCoreCancel d.core owner id) := by
  refine ⟨?_, ?_, ?_⟩
  · intro owner id layout mode flags payload hlayout hmode hpayload
    have hwire : ∀ n : UInt32, n = 1 ∨ n = 2 → n.toUInt8.toNat = n.toNat := by
      rintro n (rfl | rfl) <;> rfl
    have hbuild := buildStagePacket_eq owner id layout.toUInt8 mode.toUInt8 flags
      (Nat.lt_of_le_of_lt hpayload (by decide))
    rw [hwire layout hlayout, hwire mode hmode] at hbuild
    have hlayout' : (if layout.toUInt8 = 2 then bridgeLayoutDe else bridgeLayoutUs) = layout := by
      rcases hlayout with rfl | rfl <;> rfl
    have hmode' : (if mode.toUInt8 = 2 then bridgeModeText else bridgeModePassword) = mode := by
      rcases hmode with rfl | rfl <;> rfl
    have hlen : (stageHeader owner id layout.toUInt8 mode.toUInt8 flags payload.length
        ++ payload).length = 14 + payload.length := by
      rw [List.length_append, stageHeader_length]
    have hmaximum : payload.length ≤ 1024 := hpayload
    refine decoded_of_call hlib hsync hmax env respCap hbuild (by omega)
      (by unfold noiseIkMaxPlaintext; omega) ?_ ?_
    · unfold commandCall
      dsimp only
      rw [stageHeader_cmd, if_pos (show cmdStage = bleCmdStage from rfl), hlen,
        stageHeader_ulen _ _ _ _ _ _ _ (by omega), if_neg (by omega), stageHeader_owner,
        stageHeader_id, stageHeader_layout, stageHeader_mode, stageHeader_flags,
        stageHeader_payload, hlayout', hmode']
    · have hstage := bleHandleStage_packet d.core env.bleNowMs owner id layout.toUInt8
        mode.toUInt8 flags hpayload
      rw [hlayout', hmode'] at hstage
      rw [← hstage]
      rfl
  · intro owner id
    refine decoded_of_call hlib hsync hmax env respCap (buildJobPacket_eq cmdConfirm owner id)
      (Nat.succ_ne_zero 8) (by decide : 9 ≤ 1038) ?_ ?_
    · unfold commandCall
      dsimp only
      rw [jobPacket_cmd, if_neg (show cmdConfirm ≠ bleCmdStage by decide),
        if_pos (show cmdConfirm = bleCmdConfirm from rfl), jobPacket_length, if_neg (by decide),
        jobPacket_owner, jobPacket_id]
    · rw [← bleHandleConfirm_packet d.core env.bleNowMs cmdConfirm owner id]
      rfl
  · intro owner id
    refine decoded_of_call hlib hsync hmax env respCap (buildJobPacket_eq cmdCancel owner id)
      (Nat.succ_ne_zero 8) (by decide : 9 ≤ 1038) ?_ ?_
    · unfold commandCall
      dsimp only
      rw [jobPacket_cmd, if_neg (show cmdCancel ≠ bleCmdStage by decide),
        if_neg (show cmdCancel ≠ bleCmdConfirm by decide),
        if_pos (show cmdCancel = bleCmdCancel from rfl), jobPacket_length, if_neg (by decide),
        jobPacket_owner, jobPacket_id]
    · rw [← bleHandleCancel_packet d.core cmdCancel owner id]
      rfl

-- ============================================================ two sessions

/-- A host that has counted to a value. -/
def countedHost (counter : UInt64) : NoiseIKInitiator where
  staticPriv := tagKey 3
  staticPub := tagKey 3
  devicePub := tagKey 3
  h := tagKey 3
  ck := tagKey 3
  key := none
  nonce := 0
  sendKey := some (tagKey 1)
  receiveKey := some (tagKey 2)
  sendNonce := counter.toNat
  receiveNonce := counter.toNat
  ephPriv := none
  ephPub := none

/-- The device of its session. -/
def countedDevice (counter : UInt64) : Device :=
  { benchDevice with
    noise := { noiseIkCtxZero with
      ready := true, receiveKey := tagKey 1, sendKey := tagKey 2
      receiveNonce := counter, sendNonce := counter } }

theorem counted_synced (counter : UInt64) :
    Synced (countedHost counter) (countedDevice counter).noise := ⟨rfl, rfl, rfl, rfl, rfl⟩

/-- A new session, and the stage of a text with a `^`. -/
theorem commands_decoded_counted :
    Decoded (toyCrypto none) (countedHost 0) (countedDevice 0) (envAt 1000) 54
      (buildStagePacket 7 9 2 1 0 [0x5e, 0x61]) (.stage 7 9 bridgeLayoutDe bridgeModePassword 0
        [0x5e, 0x61] 2)
      (bridgeCoreStage bridgeCoreInit 7 9 bridgeLayoutDe bridgeModePassword 0
        (some [0x5e, 0x61]) 2 1000 bridgeTtlMs) :=
  (commands_decoded toyCrypto_lawful (counted_synced 0) (by decide) (envAt 1000) 54).1 7 9
    bridgeLayoutDe bridgeModePassword 0 [0x5e, 0x61] (.inr rfl) (.inl rfl) (by decide)

/-- A device that has received under every counter ignores what a host in
step with it seals. -/
theorem exhausted_ignores (hlib : lib.Lawful) {host host' : NoiseIKInitiator} {d : Device}
    (hmax : d.noise.receiveNonce = uint64Max) {plaintext frame : List UInt8}
    (hseal : encryptPacket lib plaintext host = .ok frame host') (env : FrameEnv) (respCap : Nat) :
    commandProcessFrame lib d env frame respCap = (none, d) := by
  obtain ⟨rest, rfl⟩ := List.head?_eq_some_iff.mp (sealed_shape hlib hseal).2
  rcases frame_cases lib d env (cmdEncrypted :: rest) respCap with
    ⟨hignored, -⟩ | ⟨hhandshake, -⟩ | ⟨p, d₁, ⟨-, -, noise, hopen, -⟩, -⟩
  · exact hignored
  · exact absurd hhandshake.1 (show cmdEncrypted ≠ bleCmdNoise by decide)
  · exact absurd hmax (decryptPacket_ok hopen).1

/-- The last counter: the host seals, and the device has stopped to
receive. -/
theorem last_counter_not_decoded :
    Synced (countedHost uint64Max) (countedDevice uint64Max).noise ∧
    ¬Decoded (toyCrypto none) (countedHost uint64Max) (countedDevice uint64Max) (envAt 1000) 54
      (buildConfirmPacket 7 9) (.confirm 7 9) (bridgeCoreConfirm bridgeCoreInit 7 9 1000) := by
  refine ⟨counted_synced uint64Max, ?_⟩
  rintro ⟨plaintext, frame, host', -, hseal, -, -, hframe⟩
  rw [exhausted_ignores toyCrypto_lawful rfl hseal] at hframe
  rcases sendReceipt_cases (toyCrypto none)
      { (countedDevice uint64Max).received with
        core := (bridgeCoreConfirm bridgeCoreInit 7 9 1000).2
        cmdAckStatus := (bridgeCoreConfirm bridgeCoreInit 7 9 1000).1.toByte } 54 true with
    h | ⟨receipt, -, h⟩
  · -- it would have counted on
    have hcount := congrArg (fun r => r.2.noise.receiveNonce) (hframe.trans h)
    exact absurd hcount (by decide)
  · exact absurd (congrArg Prod.fst (hframe.trans h)) (by intro hnone; cases hnone)

end PicoBridge
