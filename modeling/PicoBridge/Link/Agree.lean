/-
The two transports agree: a frame that is sent in fragments over BLE and
the same frame behind its length over TCP, cut in any way, are one call
of `command_process_frame` each, with the same device and the same
response after it.

# The argument

Over BLE each fragment but the last extends the buffer
(`fragments_run`, by the recursion of `fragment_packet`). Over TCP every
cutting of a byte sequence whose loop never sets `overflow` is the loop
over one segment (`netRecv_run`), and that loop only stores what does not
complete the frame (`netRxSegment_grows`). What is left on both sides is
the write or the byte that completes it.
-/
import PicoBridge.Link.Reassembly
import PicoBridge.Link.Lifetime

namespace PicoBridge

open Lib (Machine Format)

variable (lib : Crypto)

-- ============================================================= the fragments

/-- A fragment's header. -/
def fragHdrOf (seq : Nat) (more : Bool) : UInt8 := UInt8.ofNat (2 * seq + more.toNat)

theorem fragHdrOf_seq {seq : Nat} {more : Bool} (h : 2 * seq + more.toNat ≤ 255) :
    (fragHdrOf seq more >>> 1).toNat = seq := by
  have hbit := more.toNat_lt
  have hvalue : (fragHdrOf seq more).toNat = 2 * seq + more.toNat :=
    UInt8.toNat_ofNat_of_lt' (Nat.lt_of_le_of_lt h (by decide))
  rw [UInt8.toNat_shiftRight, hvalue, show (1 : UInt8).toNat % 8 = 1 from rfl,
    Nat.shiftRight_one]
  omega

theorem fragHdrOf_more {seq : Nat} {more : Bool} (h : 2 * seq + more.toNat ≤ 255) :
    fragHdrOf seq more &&& bleFragMore ≠ 0 ↔ more = true := by
  have hvalue : (fragHdrOf seq more).toNat = 2 * seq + more.toNat :=
    UInt8.toNat_ofNat_of_lt' (Nat.lt_of_le_of_lt h (by decide))
  have hbit : (fragHdrOf seq more &&& bleFragMore).toNat = more.toNat := by
    rw [UInt8.toNat_and, hvalue, show bleFragMore.toNat = 1 from rfl, Nat.and_one_is_mod]
    cases more <;> simp
  rw [ne_eq, ← toNat_zero_iff, hbit]
  cases more <;> decide

/-- A fragment that the receiver takes. -/
theorem cmdWriteCallback_taken {env : FrameEnv} {seq : Nat} {more : Bool} {data : List UInt8}
    {l : BleLink} (hhdr : 2 * seq + more.toNat ≤ 255) (hdata : data ≠ [])
    (hactive : seq ≠ 0 → l.bleCmdActive = true)
    (hfits : (if seq = 0 then [] else l.bleCmdBuf).length + data.length ≤ bleCmdBufMax) :
    let pos := if seq = 0 then [] else l.bleCmdBuf
    let m := { l with lastSeq := fragHdrOf seq more >>> 1 }
    cmdWriteCallback lib env (fragHdrOf seq more :: data) l
      = if more then ({ m with bleCmdActive := true, bleCmdBuf := pos ++ data }, none)
        else (bleReset (bleHandleCommand lib env (pos ++ data) m), some (pos ++ data)) := by
  have hseq : fragHdrOf seq more >>> 1 = 0 ↔ seq = 0 := by
    rw [← toNat_zero_iff, fragHdrOf_seq hhdr]
  have hpos : (if fragHdrOf seq more >>> 1 = 0 then [] else l.bleCmdBuf)
      = if seq = 0 then [] else l.bleCmdBuf := if_congr hseq rfl rfl
  have hlen : 0 < data.length := List.length_pos_iff.mpr hdata
  unfold cmdWriteCallback
  dsimp only
  rw [if_neg (fun h => by omega), if_neg (fun h => h.2 (hactive (mt hseq.mpr h.1))), hpos,
    if_neg (Nat.not_lt.mpr hfits)]
  exact if_congr (fragHdrOf_more hhdr) rfl rfl

/-- The first fragment of a packet, and the rest. -/
theorem fragmentFrom_step {seq : Nat} {packet : List UInt8} (hne : packet ≠ [])
    (hhdr : 2 * seq + (decide (bleMtuPayload < packet.length)).toNat ≤ 255) :
    fragmentFrom seq packet
      = (fragmentFrom (seq + 1) (packet.drop bleMtuPayload)).map
          ((fragHdrOf seq (decide (bleMtuPayload < packet.length))
            :: packet.take bleMtuPayload) :: ·) := by
  have hlen : packet.length ≠ 0 := fun h => hne (List.length_eq_zero_iff.mp h)
  have hbit : (if min bleMtuPayload packet.length < packet.length then 1 else 0)
      = (decide (bleMtuPayload < packet.length)).toNat := by
    by_cases hmore : bleMtuPayload < packet.length
    · rw [if_pos (by omega), decide_eq_true hmore]
      rfl
    · rw [if_neg (by omega), decide_eq_false hmore]
      rfl
  have htake : packet.take (min bleMtuPayload packet.length) = packet.take bleMtuPayload :=
    List.take_eq_take_min.symm
  have hdrop : packet.drop (min bleMtuPayload packet.length) = packet.drop bleMtuPayload := by
    by_cases hmore : bleMtuPayload ≤ packet.length
    · rw [Nat.min_eq_left hmore]
    · rw [Nat.min_eq_right (by omega), List.drop_length, List.drop_of_length_le (by omega)]
  rw [fragmentFrom, dif_neg hlen]
  dsimp only
  rw [hbit, htake, hdrop, if_neg (Nat.not_lt.mpr hhdr)]
  rfl

/-- A packet of up to 128 fragments is fragmented. -/
theorem fragmentFrom_some (n : Nat) : ∀ {seq : Nat} {packet : List UInt8},
    packet.length = n → packet.length ≤ bleMtuPayload * (128 - seq) →
    ∃ fragments, fragmentFrom seq packet = some fragments := by
  induction n using Nat.strongRecOn with
  | _ n ih =>
      intro seq packet hn hfits
      by_cases hne : packet = []
      · refine ⟨[], ?_⟩
        rw [fragmentFrom, hne]
        rfl
      · have hpos := List.length_pos_iff.mpr hne
        unfold bleMtuPayload at hfits
        have hbit := (decide (bleMtuPayload < packet.length)).toNat_le
        have hdrop : (packet.drop bleMtuPayload).length = packet.length - 19 := List.length_drop
        obtain ⟨fragments, hrest⟩ := @ih (packet.drop bleMtuPayload).length (by omega) (seq + 1)
          (packet.drop bleMtuPayload) rfl (by rw [hdrop]; unfold bleMtuPayload; omega)
        have hstep := @fragmentFrom_step seq packet hne (by omega)
        rw [hrest] at hstep
        exact ⟨_, hstep⟩

-- ============================================================= the response

/-- What a read of the characteristic returns of a response. -/
def bleValue (resp : List UInt8) : List UInt8 :=
  if byteOf resp 0 = bleCmdNoise then resp.drop 1 else resp

theorem ack_length (hlib : lib.Lawful) {status : UInt8} {cap : Nat} {ctx ctx' : NoiseIkCtx}
    {receipt : List UInt8} (h : noiseEncryptTransportAck lib status cap ctx = .ok receipt ctx') :
    receipt.length = 30 := by
  unfold noiseEncryptTransportAck at h
  split at h
  next => cases h
  next =>
    obtain ⟨ciphertext, hseal, hlen⟩ := hlib.encrypt_returns ctx.sendKey
      (noiseNonce ctx.sendNonce) [] (transportAck ++ [status])
    rw [hseal] at h
    cases h
    rw [List.length_append, List.length_map, List.length_range, hlen]
    rfl

/-- A response is a frame of a few dozen bytes. -/
theorem response_length (hlib : lib.Lawful) {d d' : Device} {env : FrameEnv}
    {data resp : List UInt8} {cap : Nat}
    (h : commandProcessFrame lib d env data cap = (some resp, d')) :
    resp.length ≤ bleCmdBufMax := by
  unfold commandProcessFrame at h
  split at h
  · cases h
  · split at h
    · unfold processNoise at h
      dsimp only at h
      split at h
      · cases h
      · split at h
        · cases h
        · split at h
          · cases h
          · next hlen =>
              cases h
              rw [List.length_cons, not_not.mp hlen]
              decide
    · split at h
      · unfold processEncrypted at h
        split at h
        · cases h
        · split at h
          · cases h
          · unfold sendReceipt at h
            dsimp only at h
            split at h
            · cases h
            · split at h
              next => cases h
              next hack =>
                cases h
                rw [List.length_cons, ack_length lib hlib hack]
                decide
      · cases h

/-- `ble_handle_command` is one call of `command_process_frame`, whose
response is read back. -/
theorem bleHandleCommand_eq (hlib : lib.Lawful) (env : FrameEnv) (data : List UInt8)
    (l : BleLink) :
    let c := commandProcessFrame lib l.device env data bridgeTransportResponseMax
    bleHandleCommand lib env data l
      = { l with device := c.2, cmdCharRead := c.1.map bleValue } := by
  unfold bleHandleCommand
  dsimp only
  cases hc : commandProcessFrame lib l.device env data bridgeTransportResponseMax with
  | mk resp d' =>
      cases resp with
      | none => rfl
      | some resp =>
          have hlen := response_length lib hlib hc
          have hvalue : (bleValue resp).length ≤ bleCmdBufMax := by
            unfold bleValue
            split
            · rw [List.length_drop]
              omega
            · exact hlen
          dsimp only
          exact if_neg (Nat.not_lt.mpr hvalue)

-- ============================================================== the BLE side

/-- The commands that were handed over. -/
def commandsIn (es : List BleEvent) : List (List UInt8) :=
  es.filterMap fun
    | .written _ => none
    | .handled data => some data

theorem commandsIn_append (es fs : List BleEvent) :
    commandsIn (es ++ fs) = commandsIn es ++ commandsIn fs := List.filterMap_append

/-- What a call of `command_process_frame` leaves on the characteristic. -/
structure BleDone (env : FrameEnv) (d : Device) (frame : List UInt8) (es : List BleEvent)
    (l : BleLink) : Prop where
  commands : commandsIn es = [frame]
  device : l.device = (commandProcessFrame lib d env frame bridgeTransportResponseMax).2
  cmdCharRead : l.cmdCharRead
    = (commandProcessFrame lib d env frame bridgeTransportResponseMax).1.map bleValue

theorem fragmentFrom_ne_nil {seq : Nat} {packet : List UInt8} (hne : packet ≠ []) :
    fragmentFrom seq packet ≠ some [] := by
  have hlen : packet.length ≠ 0 := fun h => hne (List.length_eq_zero_iff.mp h)
  rw [fragmentFrom, dif_neg hlen]
  dsimp only
  generalize (if min bleMtuPayload packet.length < packet.length then 1 else 0) = bit
  intro h
  by_cases hhdr : 2 * seq + bit > 255
  · rw [if_pos hhdr] at h
    cases h
  · rw [if_neg hhdr] at h
    obtain ⟨_, -, hcons⟩ := Option.map_eq_some_iff.mp h
    cases hcons

theorem bleStep_eq {l : BleLink} {w : BleWrite} {buffer : List UInt8}
    {r : BleLink × Option (List UInt8)} (hbuffer : w.buffer = buffer)
    (h : cmdWriteCallback lib w.env buffer l = r) :
    (bleMachine lib).step l w = (r.1, .written buffer :: (r.2.map .handled).toList) := by
  rw [← h, ← hbuffer]
  rfl

/-- The fragments of what is left of a packet, written one by one, hand
over what is in the buffer with it. -/
theorem fragments_run (hlib : lib.Lawful) (env : FrameEnv) (n : Nat) :
    ∀ {seq : Nat} {packet : List UInt8} {fragments : List (List UInt8)} {ws : List BleWrite}
      {l : BleLink},
      packet.length = n → packet ≠ [] → packet.length ≤ bleMtuPayload * (128 - seq) →
      (seq ≠ 0 → l.bleCmdActive = true) →
      (if seq = 0 then [] else l.bleCmdBuf).length + packet.length ≤ bleCmdBufMax →
      fragmentFrom seq packet = some fragments → ws.map BleWrite.buffer = fragments →
      ws.getLast?.map BleWrite.env = some env →
      BleDone lib env l.device ((if seq = 0 then [] else l.bleCmdBuf) ++ packet)
        ((bleMachine lib).trace l ws) ((bleMachine lib).final l ws) := by
  induction n using Nat.strongRecOn with
  | _ n ih =>
      intro seq packet fragments ws l hn hne hcount hactive hfits hfragments hws hlast
      have hpos := List.length_pos_iff.mpr hne
      have hbit := (decide (bleMtuPayload < packet.length)).toNat_le
      have hhdr : 2 * seq + (decide (bleMtuPayload < packet.length)).toNat ≤ 255 := by
        unfold bleMtuPayload at hcount
        omega
      rw [fragmentFrom_step hne hhdr] at hfragments
      obtain ⟨rest, hrest, hcons⟩ := Option.map_eq_some_iff.mp hfragments
      cases ws with
      | nil => cases hlast
      | cons w ws =>
          rw [List.map_cons, ← hcons] at hws
          obtain ⟨hbuffer, hws⟩ := List.cons.inj hws
          have htake : packet.take bleMtuPayload ≠ [] := by
            intro hnil
            have := congrArg List.length hnil
            rw [List.length_take, List.length_nil] at this
            unfold bleMtuPayload at this
            omega
          have hlen : (packet.take bleMtuPayload).length ≤ packet.length :=
            List.length_take_le' _ _
          have hwrite := @cmdWriteCallback_taken lib w.env seq _ _ l hhdr htake hactive (by omega)
          dsimp only at hwrite
          have hstep := bleStep_eq lib hbuffer hwrite
          by_cases hmore : bleMtuPayload < packet.length
          · rw [decide_eq_true hmore, if_pos rfl] at hstep
            have hdrop : (packet.drop bleMtuPayload).length = packet.length - bleMtuPayload :=
              List.length_drop
            have hdropne : packet.drop bleMtuPayload ≠ [] := by
              intro hnil
              rw [hnil, List.length_nil] at hdrop
              omega
            have hlast' : ws.getLast?.map BleWrite.env = some env := by
              cases ws with
              | nil =>
                  rw [← hws] at hrest
                  exact absurd hrest (fragmentFrom_ne_nil hdropne)
              | cons w' ws => rwa [List.getLast?_cons_cons] at hlast
            have hsplit : (packet.take bleMtuPayload).length + (packet.drop bleMtuPayload).length
                = packet.length := by
              rw [← List.length_append, List.take_append_drop]
            rw [Machine.trace_cons, Machine.final_cons, hstep]
            have hdone := @ih (packet.drop bleMtuPayload).length
              (by unfold bleMtuPayload at *; omega) (seq + 1) (packet.drop bleMtuPayload) rest ws
              { l with
                lastSeq := fragHdrOf seq true >>> 1
                bleCmdActive := true
                bleCmdBuf := (if seq = 0 then [] else l.bleCmdBuf) ++ packet.take bleMtuPayload }
              rfl hdropne (by unfold bleMtuPayload at *; omega) (fun _ => rfl)
              (by
                rw [if_neg (Nat.succ_ne_zero seq)]
                dsimp only
                rw [List.length_append]
                omega)
              hrest hws hlast'
            rw [if_neg (Nat.succ_ne_zero seq)] at hdone
            dsimp only at hdone
            rw [List.append_assoc, List.take_append_drop] at hdone
            refine ⟨?_, hdone.device, hdone.cmdCharRead⟩
            rw [commandsIn_append]
            exact hdone.commands
          · have hall : packet.take bleMtuPayload = packet :=
              List.take_of_length_le (Nat.not_lt.mp hmore)
            have hnone : packet.drop bleMtuPayload = [] :=
              List.drop_of_length_le (Nat.not_lt.mp hmore)
            have hempty : ws = [] := by
              rw [hnone, fragmentFrom] at hrest
              rw [← Option.some.inj hrest] at hws
              exact List.map_eq_nil_iff.mp hws
            rw [hempty] at hlast ⊢
            have henv : w.env = env := Option.some.inj hlast
            rw [decide_eq_false hmore, if_neg Bool.false_ne_true, hall,
              bleHandleCommand_eq lib hlib, henv] at hstep
            rw [Machine.trace_cons, Machine.final_cons, hstep]
            exact ⟨rfl, rfl, rfl⟩

-- ============================================================== the TCP side

/-- The frames that `command_process_frame` was called on. -/
def framesIn (es : List NetEvent) : List (List UInt8) :=
  es.filterMap fun
    | .frame _ data => some data
    | _ => none

/-- The bytes given to `tcp_write`. -/
def sentIn (es : List NetEvent) : List UInt8 :=
  es.flatMap fun
    | .call (.write bytes) _ _ => bytes
    | _ => []

theorem framesIn_append (es fs : List NetEvent) :
    framesIn (es ++ fs) = framesIn es ++ framesIn fs := List.filterMap_append

theorem sentIn_append (es fs : List NetEvent) :
    sentIn (es ++ fs) = sentIn es ++ sentIn fs := List.flatMap_append

/-- lwIP calls hand no frame over. -/
theorem framesIn_calls (n : NetEndpoint) (pcb : Pcb) (cs : List LwipCall) :
    framesIn (n.calls pcb cs) = [] := by
  unfold framesIn NetEndpoint.calls
  rw [List.filterMap_map]
  exact List.filterMap_eq_nil_iff.mpr fun _ _ => rfl

theorem netSentCb_frames (pcb : Pcb) (room : TxRoom) (n : NetEndpoint) :
    framesIn (netSentCb pcb room n).2 = [] := by
  obtain ⟨cs, hcs⟩ := netSentCb_calls pcb room n
  rw [hcs]
  exact framesIn_calls n pcb cs

theorem netSentCb_device (pcb : Pcb) (room : TxRoom) (n : NetEndpoint) :
    (netSentCb pcb room n).1.device = n.device := by
  rw [netSentCb_keeps]

theorem netSentCb_session (pcb : Pcb) (room : TxRoom) (n : NetEndpoint) :
    (netSentCb pcb room n).1.netSessionPcb = n.netSessionPcb := by
  rw [netSentCb_keeps]

theorem netRxSegment_more {pcb : Pcb} {x : RxByte} {xs : List RxByte} {overflow : Bool}
    {n : NetEndpoint} (h : (netRxByte lib pcb x n).2.2 = .more) :
    let r := netRxByte lib pcb x n
    let q := netRxSegment lib pcb xs overflow r.1
    netRxSegment lib pcb (x :: xs) overflow n = (q.1, r.2.1 ++ q.2.1, q.2.2) := by
  rw [netRxSegment, h]

/-- Once `overflow` is set, it stays. -/
theorem netRxSegment_true (pcb : Pcb) (xs : List RxByte) : ∀ n : NetEndpoint,
    (netRxSegment lib pcb xs true n).2.2 = true := by
  induction xs with
  | nil => exact fun _ => rfl
  | cons x xs ih =>
      intro n
      rw [netRxSegment]
      cases (netRxByte lib pcb x n).2.2 with
      | stop => rfl
      | overflow => exact ih _
      | more => exact ih _

/-- A loop that does not set it goes on after each byte. -/
theorem netRxByte_more {pcb : Pcb} {x : RxByte} {xs : List RxByte} {n : NetEndpoint}
    (h : (netRxSegment lib pcb (x :: xs) false n).2.2 = false) :
    (netRxByte lib pcb x n).2.2 = .more := by
  rw [netRxSegment] at h
  cases hnext : (netRxByte lib pcb x n).2.2 with
  | more => rfl
  | stop =>
      rw [hnext] at h
      cases h
  | overflow =>
      rw [hnext] at h
      exact absurd ((netRxSegment_true lib pcb xs _).symm.trans h) (by decide)

/-- A loop that has not set it goes on with the bytes that follow. -/
theorem netRxSegment_append (pcb : Pcb) (xs ys : List RxByte) : ∀ {n : NetEndpoint},
    (netRxSegment lib pcb xs false n).2.2 = false →
    let r := netRxSegment lib pcb xs false n
    let q := netRxSegment lib pcb ys false r.1
    netRxSegment lib pcb (xs ++ ys) false n = (q.1, r.2.1 ++ q.2.1, q.2.2) := by
  induction xs with
  | nil => exact fun _ => rfl
  | cons x xs ih =>
      intro n h
      have hnext := netRxByte_more lib h
      rw [netRxSegment_more lib hnext] at h
      rw [List.cons_append, netRxSegment_more lib hnext, netRxSegment_more lib hnext, ih h]
      dsimp only
      rw [List.append_assoc]

/-- A loop that never sets `overflow` does not see where it is cut. -/
theorem netRxSegment_split (pcb : Pcb) (xs ys : List RxByte) {n : NetEndpoint}
    (h : (netRxSegment lib pcb (xs ++ ys) false n).2.2 = false) :
    let r := netRxSegment lib pcb xs false n
    let q := netRxSegment lib pcb ys false r.1
    r.2.2 = false ∧ netRxSegment lib pcb (xs ++ ys) false n = (q.1, r.2.1 ++ q.2.1, q.2.2) := by
  have hfirst : (netRxSegment lib pcb xs false n).2.2 = false := by
    induction xs generalizing n with
    | nil => rfl
    | cons x xs ih =>
        rw [List.cons_append] at h
        have hnext := netRxByte_more lib h
        rw [netRxSegment_more lib hnext] at h ⊢
        exact ih h
  exact ⟨hfirst, netRxSegment_append lib pcb xs ys hfirst⟩

/-- So a chain is one segment. -/
theorem netRxChain_flat (pcb : Pcb) (chain : PbufChain) : ∀ {n : NetEndpoint},
    (netRxSegment lib pcb chain.flatten false n).2.2 = false →
    netRxChain lib pcb chain n = netRxSegment lib pcb chain.flatten false n := by
  induction chain with
  | nil => exact fun _ => rfl
  | cons segment chain ih =>
      intro n h
      rw [List.flatten_cons] at h ⊢
      obtain ⟨hfirst, hsplit⟩ := netRxSegment_split lib pcb segment chain.flatten h
      rw [hsplit] at h ⊢
      rw [netRxChain, if_neg (by rw [hfirst]; exact Bool.false_ne_true), ih h]

/-- A receive callback whose bytes never set `overflow`. -/
theorem netRecv_step {pcb : Pcb} {chain : PbufChain} {n : NetEndpoint}
    (hsession : n.netSessionPcb = some pcb) (hlive : pcb ∈ n.live)
    (hover : (netRxSegment lib pcb chain.flatten false n).2.2 = false) :
    let r := netRxSegment lib pcb chain.flatten false n
    let s := netStep lib n (.recv pcb (some chain) true)
    s.1 = r.1 ∧ framesIn s.2 = framesIn r.2.1 ∧ sentIn s.2 = sentIn r.2.1 := by
  have hcallback : netRecvCb lib pcb (some chain) true n
      = ((netRxSegment lib pcb chain.flatten false n).1,
         [.received pcb chain.bytes] ++ (netRxSegment lib pcb chain.flatten false n).2.1 ++
           (netRxSegment lib pcb chain.flatten false n).1.calls pcb
             [.recved (chain.bytes.length % 65536)]) := by
    unfold netRecvCb
    dsimp only
    rw [if_neg (not_not_intro hsession), netRxChain_flat lib pcb chain hover,
      if_neg (by rw [hover]; exact Bool.false_ne_true), List.append_nil]
    rfl
  unfold netStep
  dsimp only
  rw [if_neg (not_not_intro hlive), hcallback]
  refine ⟨rfl, ?_, ?_⟩
  · dsimp only
    rw [framesIn_append, framesIn_append, framesIn_append]
    exact (List.append_nil _).trans (List.append_nil _)
  · dsimp only
    rw [sentIn_append, sentIn_append, sentIn_append]
    exact (List.append_nil _).trans (List.append_nil _)

/-- What a connection's receive callbacks leave whose bytes never set
`overflow`: what the loop leaves of the bytes. -/
theorem netRecv_run (pcb : Pcb) (chains : List PbufChain) : ∀ {n : NetEndpoint},
    n.netSessionPcb = some pcb → netFormat.Unfinished n.netRx → pcb ∈ n.live →
    (netRxSegment lib pcb chains.flatten.flatten false n).2.2 = false →
    let is := chains.map fun chain => NetInput.recv pcb (some chain) true
    let r := netRxSegment lib pcb chains.flatten.flatten false n
    (netMachine lib).final n is = r.1 ∧
      framesIn ((netMachine lib).trace n is) = framesIn r.2.1 ∧
      sentIn ((netMachine lib).trace n is) = sentIn r.2.1 := by
  induction chains with
  | nil => exact fun _ _ _ _ => ⟨rfl, rfl, rfl⟩
  | cons chain chains ih =>
      intro n hsession hrx hlive hover
      have hflat : (chain :: chains).flatten.flatten
          = chain.flatten ++ chains.flatten.flatten := by
        rw [List.flatten_cons, List.flatten_append]
      rw [hflat] at hover ⊢
      obtain ⟨hfirst, hsplit⟩ := netRxSegment_split lib pcb _ _ hover
      rw [hsplit] at hover ⊢
      rcases netRxSegment_lifetime lib pcb chain.flatten [] hsession hrx hlive with
        ⟨-, hgoing, hrx', -⟩ | ⟨htrue, -⟩
      · obtain ⟨hstep, hstepFrames, hstepSent⟩ := netRecv_step lib hsession hlive hfirst
        obtain ⟨hfinal, hframes, hsent⟩ := ih hgoing.session hrx' (hgoing.live ▸ hlive) hover
        rw [← hstep] at hfinal hframes hsent ⊢
        refine ⟨hfinal, ?_, ?_⟩
        · rw [List.map_cons, Machine.trace_cons, framesIn_append, framesIn_append, ← hframes]
          exact congrArg (· ++ _) hstepFrames
        · rw [List.map_cons, Machine.trace_cons, sentIn_append, sentIn_append, ← hsent]
          exact congrArg (· ++ _) hstepSent
      · rw [hfirst] at htrue
        cases htrue

/-- Bytes that do not complete the frame are stored. -/
theorem netRxSegment_grows (pcb : Pcb) (xs : List RxByte) : ∀ {n : NetEndpoint},
    n.netSessionPcb = some pcb → netFormat.Unfinished (n.netRx ++ xs.map RxByte.byte) →
    let r := netRxSegment lib pcb xs false n
    r.1 = { n with netRx := n.netRx ++ xs.map RxByte.byte } ∧ framesIn r.2.1 = [] ∧
      sentIn r.2.1 = [] ∧ r.2.2 = false := by
  induction xs with
  | nil =>
      intro n _ _
      rw [List.map_nil, List.append_nil]
      exact ⟨rfl, rfl, rfl, rfl⟩
  | cons x xs ih =>
      intro n hsession hrx
      rw [List.map_cons, List.append_cons] at hrx
      have hbyte : netRxByte lib pcb x n
          = ({ n with netRx := n.netRx ++ [x.byte] }, [.store n.netRx.length], .more) := by
        have hpush := Format.push_unfinished hrx.left
        rcases netRxByte_cases lib pcb x hsession hrx.left.left with
          ⟨-, -, hr⟩ | ⟨hrefused, -⟩ | ⟨hfinished, -⟩
        · exact hr
        · rw [hpush] at hrefused
          exact absurd (congrArg Prod.fst hrefused) (by simp)
        · rw [hpush] at hfinished
          exact absurd (congrArg Prod.snd hfinished) (by simp)
      obtain ⟨hfinal, hframes, hsent, hover⟩ :=
        @ih { n with netRx := n.netRx ++ [x.byte] } hsession hrx
      rw [netRxSegment_more lib (congrArg (·.2.2) hbyte), hbyte]
      refine ⟨hfinal.trans ?_, hframes, hsent, hover⟩
      show { n with netRx := n.netRx ++ [x.byte] ++ xs.map RxByte.byte } = _
      rw [List.map_cons, ← List.append_cons]

/-- What a call of `command_process_frame` leaves on the connection. -/
structure NetDone (env : FrameEnv) (d : Device) (frame : List UInt8) (es : List NetEvent)
    (n : NetEndpoint) : Prop where
  frames : framesIn es = [frame]
  device : n.device = (commandProcessFrame lib d env frame bridgeTransportResponseMax).2
  sent : sentIn es ++ n.netPendingTx
    = ((commandProcessFrame lib d env frame bridgeTransportResponseMax).1.map fun resp =>
        be32 resp.length ++ resp).getD []

/-- What is given to the send buffer and what is left come to what there
was. -/
theorem netSentCb_sent (pcb : Pcb) (room : TxRoom) (n : NetEndpoint) :
    sentIn (netSentCb pcb room n).2 ++ (netSentCb pcb room n).1.netPendingTx
      = n.netPendingTx := by
  unfold netSentCb
  dsimp only
  split
  · rfl
  · split
    · rfl
    · split
      · rfl
      · split
        · rfl
        · simp [sentIn, NetEndpoint.calls]

/-- The byte that completes a frame. -/
theorem netRxByte_whole (pcb : Pcb) (x : RxByte) {n : NetEndpoint} {frame : List UInt8}
    (hsession : n.netSessionPcb = some pcb) (hrx : netFormat.Unfinished n.netRx)
    (hsize : netSize ((n.netRx ++ [x.byte]).take 4) = some frame.length)
    (hlen : (n.netRx ++ [x.byte]).length = 4 + frame.length)
    (hframe : (n.netRx ++ [x.byte]).drop 4 = frame) :
    let q := netProcessFrame lib pcb x.env x.room { n with netRx := n.netRx ++ [x.byte] }
    netRxByte lib pcb x n = (q.1, .store n.netRx.length :: q.2,
      if q.1.netSessionPcb = none then .stop else .more) := by
  have hpush : netFormat.push (some n.netRx) x.byte = (some [], [frame]) := by
    have hsize' : netFormat.size ((n.netRx ++ [x.byte]).take netFormat.header)
        = some frame.length := by
      rw [netFormat_header, netFormat_size]
      exact hsize
    rw [Format.push_finished hsize' hlen]
    exact congrArg (fun f => (some [], [f])) hframe
  rcases netRxByte_cases lib pcb x hsession hrx with ⟨hmore, -⟩ | ⟨hrefused, -⟩ | ⟨-, hr⟩
  · rw [hpush] at hmore
    exact absurd (congrArg Prod.snd hmore) (by simp)
  · rw [hpush] at hrefused
    exact absurd (congrArg Prod.fst hrefused) (by simp)
  · exact hr

theorem be32_length (n : Nat) : (be32 n).length = 4 := by
  rw [be32, List.length_reverse, leBytes_length]

theorem be32Of_be32 {n : Nat} (h : n < 256 ^ 4) : be32Of (be32 n) = n := by
  show leValue (leBytes 4 n) = n
  rw [leValue_leBytes, Nat.mod_eq_of_lt h]

/-- A length that is accepted. -/
theorem netSize_be32 {n : Nat} (hpos : 0 < n) (hle : n ≤ 2044) : netSize (be32 n) = some n := by
  unfold netSize netFrameMax
  rw [be32Of_be32 (by omega), if_neg (by omega)]

/-- A frame behind its length, between two frames: everything but its last
byte is stored, and that byte hands it over. -/
theorem netRxSegment_whole (pcb : Pcb) {n : NetEndpoint} {frame : List UInt8}
    (hsession : n.netSessionPcb = some pcb) (hrx : n.netRx = []) (hpos : 0 < frame.length)
    (hle : frame.length ≤ 2044) {xs : List RxByte}
    (hbytes : xs.map RxByte.byte = be32 frame.length ++ frame) :
    ∃ x es, xs.getLast? = some x ∧ framesIn es = [] ∧ sentIn es = [] ∧
      let m := { n with netRx := be32 frame.length ++ frame }
      let q := netProcessFrame lib pcb x.env x.room m
      (q.1.netSessionPcb = some pcb →
        netRxSegment lib pcb xs false n = (q.1, es ++ q.2, false)) := by
  have hlength := congrArg List.length hbytes
  rw [List.length_append, be32_length, List.length_map] at hlength
  rcases List.eq_nil_or_concat' xs with rfl | ⟨init, x, rfl⟩
  · rw [List.length_nil] at hlength
    omega
  rw [List.length_append, List.length_singleton] at hlength
  rw [List.map_append, List.map_singleton] at hbytes
  have hhead : (init.map RxByte.byte).take 4 = be32 frame.length := by
    have htake := congrArg (List.take 4) hbytes
    rwa [List.take_append_of_le_length (by rw [List.length_map]; omega),
      List.take_left' (be32_length frame.length)] at htake
  have hmore : netFormat.Unfinished (n.netRx ++ init.map RxByte.byte) := by
    rw [hrx, List.nil_append]
    refine .inr ⟨frame.length, ?_, ?_⟩
    · rw [netFormat_header, netFormat_size, hhead]
      exact netSize_be32 hpos hle
    · rw [List.length_map]
      show _ < 4 + frame.length
      omega
  obtain ⟨hgrown, hframes, hsent, hover⟩ := netRxSegment_grows lib pcb init hsession hmore
  rw [hrx, List.nil_append] at hgrown hmore
  have hsplit := netRxSegment_append lib pcb init [x] hover
  dsimp only at hsplit
  rw [hgrown] at hsplit
  have hbyte := netRxByte_whole lib pcb x (n := { n with netRx := init.map RxByte.byte })
    hsession hmore (by rw [hbytes, List.take_left' (be32_length _)]; exact netSize_be32 hpos hle)
    (by rw [hbytes, List.length_append, be32_length])
    (by rw [hbytes, List.drop_left' (be32_length _)])
  dsimp only at hbyte
  rw [hbytes] at hbyte
  refine ⟨x, (netRxSegment lib pcb init false n).2.1 ++ [.store (init.map RxByte.byte).length],
    by simp, ?_, ?_, fun hopen => ?_⟩
  · rw [framesIn_append, hframes]
    rfl
  · rw [sentIn_append, hsent]
    rfl
  · rw [hopen, if_neg (Option.some_ne_none pcb)] at hbyte
    rw [hsplit, netRxSegment_more lib (congrArg (·.2.2) hbyte), hbyte, List.append_assoc]
    dsimp only [netRxSegment]
    rw [List.append_nil, List.singleton_append]

/-- A frame behind its length, between two frames and with nothing
pending, however it is cut. -/
theorem netRecv_frame (pcb : Pcb) {n : NetEndpoint} {frame : List UInt8} {env : FrameEnv}
    (hsession : n.netSessionPcb = some pcb) (hlive : pcb ∈ n.live) (hrx : n.netRx = [])
    (hpending : n.netPendingTx = []) (hpos : 0 < frame.length) (hle : frame.length ≤ 2044)
    (chains : List PbufChain)
    (hbytes : chains.flatten.flatten.map RxByte.byte = be32 frame.length ++ frame)
    (hlast : chains.flatten.flatten.getLast?.map RxByte.env = some env) :
    let is := chains.map fun chain => NetInput.recv pcb (some chain) true
    NetDone lib env n.device frame ((netMachine lib).trace n is) ((netMachine lib).final n is) := by
  have hunfinished : netFormat.Unfinished n.netRx := by
    rw [hrx]
    exact netFormat.unfinished_nil
  obtain ⟨x, es, hx, hframes, hsent, hwhole⟩ :=
    netRxSegment_whole lib pcb hsession hrx hpos hle hbytes
  obtain rfl : x.env = env := by
    rw [hx] at hlast
    exact Option.some.inj hlast
  have hdrop : (be32 frame.length ++ frame).drop 4 = frame := List.drop_left' (be32_length _)
  have hcases := netProcessFrame_cases lib pcb x.env x.room
    { n with netRx := be32 frame.length ++ frame }
  dsimp only at hwhole hcases
  rw [hdrop] at hcases
  have hrun := netRecv_run lib pcb chains hsession hunfinished hlive
  rcases hcases with ⟨hnone, hq⟩ | ⟨-, hne, -⟩ | ⟨resp, hresp, -, hq⟩
  · rw [hq] at hwhole
    rw [hwhole hsession] at hrun
    obtain ⟨hfinal, hframes', hsent'⟩ := hrun rfl
    refine ⟨?_, congrArg NetEndpoint.device hfinal, ?_⟩
    · rw [hframes', framesIn_append, hframes]
      rfl
    · rw [hfinal, hsent', sentIn_append, hsent, hnone]
      exact hpending
  · exact absurd hpending hne
  · rw [hq] at hwhole
    rw [hwhole (by rw [netSentCb_session]; exact hsession)] at hrun
    obtain ⟨hfinal, hframes', hsent'⟩ := hrun rfl
    refine ⟨?_, ?_, ?_⟩
    · rw [hframes', framesIn_append, hframes]
      show frame :: framesIn _ = [frame]
      rw [netSentCb_frames]
    · rw [hfinal]
      exact netSentCb_device pcb x.room _
    · rw [hfinal, hsent', sentIn_append, hsent, hresp]
      exact netSentCb_sent pcb x.room _

/-- The two transports agree. A frame of 1 to 1102 bytes is one call of
`command_process_frame`, on exactly that frame, both where the fragments
of `fragment_packet` are written one by one, whatever was in the
reassembly before, and where it is sent behind its length over an open
session between two frames, however lwIP cuts it. The device is the same
after both, and so are the bytes of the response, but for the type byte
of a handshake that BLE drops. -/
theorem transports_agree (hlib : lib.Lawful) (frame : List UInt8) (hpos : 0 < frame.length)
    (hle : frame.length ≤ bleCmdBufMax) (env : FrameEnv) (l : BleLink) (n : NetEndpoint)
    (pcb : Pcb) (hsession : n.netSessionPcb = some pcb) (hlive : pcb ∈ n.live)
    (hrx : n.netRx = []) (hpending : n.netPendingTx = []) (hdevice : n.device = l.device) :
    ∃ fragments, fragmentPacket frame = some fragments ∧
      ∀ (ws : List BleWrite) (chains : List PbufChain),
        ws.map BleWrite.buffer = fragments →
        ws.getLast?.map BleWrite.env = some env →
        chains.flatten.flatten.map RxByte.byte = be32 frame.length ++ frame →
        chains.flatten.flatten.getLast?.map RxByte.env = some env →
        let is := chains.map fun chain => NetInput.recv pcb (some chain) true
        BleDone lib env l.device frame ((bleMachine lib).trace l ws)
            ((bleMachine lib).final l ws) ∧
          NetDone lib env l.device frame ((netMachine lib).trace n is)
            ((netMachine lib).final n is) ∧
          ((bleMachine lib).final l ws).device = ((netMachine lib).final n is).device := by
  have hne : frame ≠ [] := List.length_pos_iff.mp hpos
  have hcount : frame.length ≤ bleMtuPayload * (128 - 0) := Nat.le_trans hle (by decide)
  have hsmall : frame.length ≤ 2044 := Nat.le_trans hle (by decide)
  obtain ⟨fragments, hfragments⟩ := fragmentFrom_some frame.length rfl hcount
  refine ⟨fragments, hfragments, fun ws chains hws hlast hbytes hlast' => ?_⟩
  have hble := @fragments_run lib hlib env frame.length 0 frame fragments ws l rfl hne hcount
    (fun h => absurd rfl h) (by rw [if_pos rfl, List.length_nil]; omega) hfragments hws hlast
  have hnet := netRecv_frame lib pcb hsession hlive hrx hpending hpos hsmall chains hbytes hlast'
  rw [if_pos rfl, List.nil_append] at hble
  rw [hdevice] at hnet
  exact ⟨hble, hnet, hble.device.trans hnet.device.symm⟩

/-- A session between two frames. -/
def benchOpen : NetEndpoint :=
  { netEndpointInit benchDevice with netSessionPcb := some 7, live := [7] }

/-- The packet of three fragments behind its length, which is cut, as the
packet is. -/
def cutPacket : List PbufChain :=
  let bytes := (be32 threeFragments.length ++ threeFragments).map benchByte
  [[bytes.take 3, (bytes.drop 3).take 20], [bytes.drop 23]]

theorem transports_agree_bench :
    let lib := toyCrypto none
    let ws := [threeWrite 0, threeWrite 1, threeWrite 2]
    let is := cutPacket.map fun chain => NetInput.recv 7 (some chain) true
    BleDone lib (envAt 1000) benchDevice threeFragments ((bleMachine lib).trace benchLink ws)
        ((bleMachine lib).final benchLink ws) ∧
      NetDone lib (envAt 1000) benchDevice threeFragments ((netMachine lib).trace benchOpen is)
        ((netMachine lib).final benchOpen is) ∧
      ((bleMachine lib).final benchLink ws).device
        = ((netMachine lib).final benchOpen is).device := by
  intro lib ws is
  obtain ⟨fragments, hfragments, hagree⟩ := transports_agree (toyCrypto none) toyCrypto_lawful
    threeFragments (by decide) (by decide) (envAt 1000) benchLink benchOpen 7 rfl (by decide)
    rfl rfl rfl
  have hws : some (ws.map BleWrite.buffer) = some fragments := by
    rw [← hfragments]
    decide +kernel
  exact hagree ws cutPacket (Option.some.inj hws) rfl (by decide +kernel) rfl

end PicoBridge
