/-
Forged command frames on the two transports, and that no session is
disturbed by them.

# The insertion

A run of the transports is any list of arrivals. Between two of them a
forged frame is inserted as whoever sends it pleases: in any number of
fragments over BLE, behind its length over TCP and cut in any way, on the
open connection or not; but at a boundary of the transport's frames, so
that it is a frame (`Route.Whole`).

# The argument

The device is left by what is forged (`forged_ignored`), and so is the
reassembly by what is whole: the endpoint is the same after it
(`netRecv_ignored`), and what else is left of the characteristic than its
value is (`fragments_ignored`). `Alike` is what the two runs then have in
common, and `Unwinding.run` its induction.
-/
import PicoBridge.Device.Forgery
import PicoBridge.Link.Transports

namespace PicoBridge

open Lib (Machine Unwinding)
open Lib.Machine (everything own)

-- ================================================================= the route

/-- The writes of a frame in fragments, the first of which alone has the
number 0, and the last of which alone is without MORE. -/
inductive Fragments : Bool → List UInt8 → List BleWrite → Prop
  | last {first : Bool} {w : BleWrite} (hne : w.buffer ≠ [])
      (hnumber : seqOf w.buffer = 0 ↔ first = true) (hlast : ¬moreOf w.buffer) :
      Fragments first (dataOf w.buffer) [w]
  | more {first : Bool} {w : BleWrite} {data : List UInt8} {ws : List BleWrite}
      (hne : w.buffer ≠ []) (hnumber : seqOf w.buffer = 0 ↔ first = true)
      (hmore : moreOf w.buffer) (hrest : Fragments false data ws) :
      Fragments first (dataOf w.buffer ++ data) (w :: ws)

/-- How a frame is delivered. -/
inductive Route
  | ble (ws : List BleWrite)
  | net (pcb : Pcb) (chains : List PbufChain)

def Route.arrivals : Route → List Arrival
  | .ble ws => ws.map .ble
  | .net pcb chains => chains.map fun chain => .net (.recv pcb (some chain) true) rfl

/-- The route of one frame, where its transport is between two. TCP
frames have up to 2044 bytes: `net_recv_cb` ends the connection on any
other length. -/
def Route.Whole (t : Transports) (data : List UInt8) : Route → Prop
  | .ble ws => t.ble.bleCmdActive = false ∧ Fragments true data ws
  | .net _ chains => t.net.netRx = [] ∧ 0 < data.length ∧ data.length ≤ netFrameMax - 4 ∧
      chains.flatten.flatten.map RxByte.byte = be32 data.length ++ data

/-- A frame and how it is delivered. -/
structure Injected where
  data : List UInt8
  route : Route

def Injected.arrivals (x : Injected) : List Arrival := x.route.arrivals

variable (lib : Crypto)

/-- A forged frame that is inserted between two frames. -/
structure Transports.Injects (t : Transports) (x : Injected) : Prop where
  forged : Forged lib t.device.noise x.data
  whole : x.route.Whole t x.data

/-- The transports, with the report of each call that is made. -/
def answerMachine : Machine Transports Arrival CallReport where
  step t a :=
    let r := (transportMachine lib).step t a
    (r.1, (callMachine lib).trace (t.device, []) r.2)

-- ================================================================ over BLE

variable {lib}

/-- A write that hands nothing over, or something forged, leaves the
device; a write that is not taken leaves nothing to continue. -/
theorem cmdWriteCallback_ignored (hlib : lib.OpensSealed) {w : BleWrite} {l : BleLink}
    (hne : w.buffer ≠ [])
    (hforged : ¬moreOf w.buffer → (seqOf w.buffer ≠ 0 → l.bleCmdActive = true) →
      Forged lib l.device.noise (l.base w.buffer ++ dataOf w.buffer)) :
    let r := cmdWriteCallback lib w.env w.buffer l
    r.1.device = l.device ∧ (r.1.bleCmdActive = false ∨
      moreOf w.buffer ∧ (seqOf w.buffer ≠ 0 → l.bleCmdActive = true) ∧
        r.1.bleCmdActive = true ∧ r.1.bleCmdBuf = l.base w.buffer ++ dataOf w.buffer) := by
  obtain ⟨fragHdr, data, hbuffer⟩ := List.exists_cons_of_ne_nil hne
  have hdata : dataOf w.buffer = data := congrArg dataOf hbuffer
  have hdevice := @cmdWriteCallback_device lib w.env w.buffer l
  have hcases := cmdWriteCallback_cases lib w.env fragHdr data l
  rw [← hbuffer] at hcases
  rw [hdata] at hforged ⊢
  dsimp only at hdevice hcases ⊢
  generalize cmdWriteCallback lib w.env w.buffer l = r at hdevice hcases ⊢
  rcases hcases with ⟨hnone, hidle⟩ | ⟨htaken, hmore, hactive⟩ | ⟨hdone, hidle, hlast, hactive⟩
  · rcases hdevice with ⟨-, hsame⟩ | ⟨_, hsome, -⟩
    · exact ⟨hsame, .inl hidle⟩
    · rw [hnone] at hsome
      cases hsome
  · rw [htaken]
    exact ⟨rfl, .inr ⟨hmore, hactive, rfl, rfl⟩⟩
  · refine ⟨?_, .inl hidle⟩
    rcases hdevice with ⟨-, hsame⟩ | ⟨data', hsome, hafter⟩
    · exact hsame
    · rw [hdone] at hsome
      cases hsome
      rw [hafter, forged_ignored hlib (hforged hlast hactive)]

/-- The writes of a forged frame, or of what is left of one that was not
taken, leave the device and nothing to continue. -/
theorem fragments_ignored (hlib : lib.OpensSealed) {first : Bool} {data : List UInt8}
    {ws : List BleWrite} (h : Fragments first data ws) : ∀ {l : BleLink},
    (first = true ∨ l.bleCmdActive = true →
      Forged lib l.device.noise ((if first then [] else l.bleCmdBuf) ++ data)) →
    let m := (bleMachine lib).final l ws
    m.device = l.device ∧ m.bleCmdActive = false := by
  induction h with
  | @last first w hne hnumber hlast =>
      intro l hforged
      have hwrite := cmdWriteCallback_ignored hlib hne (l := l) fun _ hactive => by
        cases first with
        | true =>
            rw [BleLink.base, if_pos (hnumber.mpr rfl)]
            exact hforged (.inl rfl)
        | false =>
            have hseq : seqOf w.buffer ≠ 0 := fun h0 => absurd (hnumber.mp h0) (by decide)
            rw [BleLink.base, if_neg hseq]
            exact hforged (.inr (hactive hseq))
      exact ⟨hwrite.1, hwrite.2.resolve_right fun hmore => hlast hmore.1⟩
  | @more first w data ws hne hnumber hmore hrest ih =>
      intro l hforged
      obtain ⟨hdevice, hnext⟩ := cmdWriteCallback_ignored hlib hne (l := l)
        fun hlast => absurd hmore hlast
      have hstep : ((bleMachine lib).step l w).1.device = l.device := hdevice
      have hlater := @ih ((bleMachine lib).step l w).1 fun hgoing => by
        have hgoing := hgoing.resolve_left (by decide)
        rcases hnext with hidle | ⟨-, hactive, -, hbuf⟩
        · exact absurd (hidle.symm.trans hgoing) (by decide)
        · have hbuf : ((bleMachine lib).step l w).1.bleCmdBuf
              = l.base w.buffer ++ dataOf w.buffer := hbuf
          rw [hstep, if_neg Bool.false_ne_true, hbuf, List.append_assoc]
          cases first with
          | true =>
              rw [BleLink.base, if_pos (hnumber.mpr rfl)]
              exact hforged (.inl rfl)
          | false =>
              have hseq : seqOf w.buffer ≠ 0 := fun h0 => absurd (hnumber.mp h0) (by decide)
              rw [BleLink.base, if_neg hseq]
              exact hforged (.inr (hactive hseq))
      exact ⟨hlater.1.trans hstep, hlater.2⟩

-- ================================================================ over TCP

/-- A callback of a connection that is not the session's. -/
theorem netRecv_apart {pcb : Pcb} {n : NetEndpoint}
    (h : pcb ∉ n.live ∨ n.netSessionPcb ≠ some pcb) (chains : List PbufChain) :
    (netMachine lib).final n (chains.map fun chain => .recv pcb (some chain) true) = n := by
  induction chains with
  | nil => rfl
  | cons chain chains ih =>
      have hstep : ((netMachine lib).step n (.recv pcb (some chain) true)).1 = n := by
        show (netStep lib n (.recv pcb (some chain) true)).1 = n
        unfold netStep
        dsimp only
        split
        · rfl
        next hlive =>
          unfold netRecvCb
          rw [if_pos (h.resolve_left (not_not_intro (not_not.mp hlive)))]
      rw [List.map_cons, Machine.final_cons, hstep]
      exact ih

/-- The callbacks that receive a forged frame leave the endpoint. -/
theorem netRecv_ignored (hlib : lib.OpensSealed) (pcb : Pcb) {n : NetEndpoint}
    {data : List UInt8} {chains : List PbufChain} (hforged : Forged lib n.device.noise data)
    (hrx : n.netRx = []) (hpos : 0 < data.length) (hle : data.length ≤ 2044)
    (hbytes : chains.flatten.flatten.map RxByte.byte = be32 data.length ++ data) :
    (netMachine lib).final n (chains.map fun chain => .recv pcb (some chain) true) = n := by
  by_cases hlive : pcb ∈ n.live
  swap
  · exact netRecv_apart (.inl hlive) chains
  by_cases hsession : n.netSessionPcb = some pcb
  swap
  · exact netRecv_apart (.inr hsession) chains
  have hunfinished : netFormat.Unfinished n.netRx := by
    rw [hrx]
    exact netFormat.unfinished_nil
  obtain ⟨x, es, -, -, -, hwhole⟩ := netRxSegment_whole lib pcb hsession hrx hpos hle hbytes
  have hframe : netProcessFrame lib pcb x.env x.room { n with netRx := be32 data.length ++ data }
      = (n, [.frame pcb data]) := by
    unfold netProcessFrame
    dsimp only
    rw [List.drop_left' (be32_length _), forged_ignored hlib hforged]
    dsimp only
    rw [← hrx]
  dsimp only at hwhole
  rw [hframe] at hwhole
  have hrun := netRecv_run lib pcb chains hsession hunfinished hlive
  rw [hwhole hsession] at hrun
  exact (hrun rfl).1

-- ================================================================== the runs

/-- Transports that differ in the value of the characteristic, and in
what no function reads: the number of the last write, and what is left in
the buffer of a command that is not continued. -/
structure Alike (t u : Transports) : Prop where
  net : t.net = u.net
  active : t.ble.bleCmdActive = u.ble.bleCmdActive
  buffer : u.ble.bleCmdActive = true → t.ble.bleCmdBuf = u.ble.bleCmdBuf

theorem Alike.device {t u : Transports} (h : Alike t u) : t.device = u.device :=
  t.shared.symm.trans ((congrArg NetEndpoint.device h.net).trans u.shared)

/-- A write does the same to both. -/
theorem cmdWriteCallback_alike {l m : BleLink} (hdevice : l.device = m.device)
    (hactive : l.bleCmdActive = m.bleCmdActive)
    (hbuffer : m.bleCmdActive = true → l.bleCmdBuf = m.bleCmdBuf) (env : FrameEnv)
    (buffer : List UInt8) :
    let r := cmdWriteCallback lib env buffer l
    let q := cmdWriteCallback lib env buffer m
    r.2 = q.2 ∧ r.1.device = q.1.device ∧ r.1.bleCmdActive = q.1.bleCmdActive ∧
      (q.1.bleCmdActive = true → r.1.bleCmdBuf = q.1.bleCmdBuf) := by
  cases buffer with
  | nil => exact ⟨rfl, hdevice, hactive, hbuffer⟩
  | cons fragHdr data =>
      unfold cmdWriteCallback
      dsimp only
      rw [hactive]
      by_cases hempty : fragHdr >>> 1 = 0 ∧ data.length < 1
      · rw [if_pos hempty, if_pos hempty]
        exact ⟨rfl, hdevice, rfl, fun _ => rfl⟩
      rw [if_neg hempty, if_neg hempty]
      by_cases hlate : fragHdr >>> 1 ≠ 0 ∧ ¬m.bleCmdActive = true
      · rw [if_pos hlate, if_pos hlate]
        exact ⟨rfl, hdevice, rfl, fun h => absurd h hlate.2⟩
      rw [if_neg hlate, if_neg hlate]
      have hpos : (if fragHdr >>> 1 = 0 then [] else l.bleCmdBuf)
          = if fragHdr >>> 1 = 0 then [] else m.bleCmdBuf := by
        by_cases hzero : fragHdr >>> 1 = 0
        · rw [if_pos hzero, if_pos hzero]
        · rw [if_neg hzero, if_neg hzero, hbuffer (by by_contra hno; exact hlate ⟨hzero, hno⟩)]
      rw [hpos]
      generalize (if fragHdr >>> 1 = 0 then [] else m.bleCmdBuf : List UInt8) = pos
      split
      · exact ⟨rfl, hdevice, rfl, fun _ => rfl⟩
      split
      · exact ⟨rfl, hdevice, rfl, fun _ => rfl⟩
      · refine ⟨rfl, ?_, rfl, fun _ => rfl⟩
        show (bleHandleCommand lib env _ _).device = (bleHandleCommand lib env _ _).device
        rw [bleHandleCommand_device, bleHandleCommand_device]
        dsimp only
        rw [hdevice]

/-- An arrival does the same to both. -/
theorem Alike.step {t u : Transports} (h : Alike t u) (a : Arrival) :
    Alike ((transportMachine lib).step t a).1 ((transportMachine lib).step u a).1 ∧
      ((transportMachine lib).step t a).2 = ((transportMachine lib).step u a).2 := by
  cases a with
  | ble w =>
      obtain ⟨hcommand, hdevice, hactive, hbuffer⟩ :=
        @cmdWriteCallback_alike lib _ _ h.device h.active h.buffer w.env w.buffer
      refine ⟨⟨?_, hactive, hbuffer⟩, ?_⟩
      · exact congrArg₂ (fun (n : NetEndpoint) d => { n with device := d }) h.net hdevice
      · show bleCalls lib w t.ble = bleCalls lib w u.ble
        unfold bleCalls
        rw [hcommand]
  | net i harrives =>
      refine ⟨⟨?_, h.active, h.buffer⟩, ?_⟩
      · exact congrArg (fun n => ((netMachine lib).step n i).1) h.net
      · exact congrArg (netCalls lib i) h.net

/-- Writes on the transports are writes to the characteristic. -/
theorem final_ble (ws : List BleWrite) : ∀ t : Transports,
    ((transportMachine lib).final t (ws.map .ble)).ble = (bleMachine lib).final t.ble ws ∧
      ((transportMachine lib).final t (ws.map .ble)).net
        = { t.net with device := ((bleMachine lib).final t.ble ws).device } := by
  induction ws with
  | nil =>
      intro t
      refine ⟨rfl, ?_⟩
      rw [List.map_nil, Machine.final_nil, Machine.final_nil, ← t.shared]
  | cons w ws ih => exact fun t => ih _

/-- Callbacks on the transports are callbacks of the endpoint. -/
theorem final_net (pcb : Pcb) (chains : List PbufChain) : ∀ t : Transports,
    let is := chains.map fun chain => Arrival.net (.recv pcb (some chain) true) rfl
    let m := (netMachine lib).final t.net (chains.map fun chain => .recv pcb (some chain) true)
    ((transportMachine lib).final t is).net = m ∧
      ((transportMachine lib).final t is).ble = { t.ble with device := m.device } := by
  induction chains with
  | nil =>
      intro t
      refine ⟨rfl, ?_⟩
      rw [List.map_nil, List.map_nil, Machine.final_nil, Machine.final_nil, t.shared]
  | cons chain chains ih => exact fun t => ih _

/-- A forged frame that is inserted on one side only. -/
theorem Alike.injected (hlib : lib.OpensSealed) {t u : Transports} (h : Alike t u)
    {x : Injected} (hx : t.Injects lib x) :
    Alike ((transportMachine lib).final t x.arrivals) u := by
  obtain ⟨data, route⟩ := x
  have hforged := hx.forged
  cases route with
  | ble ws =>
      obtain ⟨hidle, hfragments⟩ := hx.whole
      obtain ⟨hdevice, hactive⟩ := fragments_ignored hlib hfragments (l := t.ble) fun _ => hforged
      obtain ⟨hble, hnet⟩ := @final_ble lib ws t
      have hidle' : u.ble.bleCmdActive = false := h.active.symm.trans hidle
      refine ⟨?_, ?_, fun hgoing => absurd (hidle'.symm.trans hgoing) (by decide)⟩
      · refine hnet.trans ?_
        rw [hdevice, ← t.shared, ← h.net]
      · refine (congrArg BleLink.bleCmdActive hble).trans ?_
        rw [hactive, hidle']
  | net pcb chains =>
      obtain ⟨hrx, hpos, hle, hbytes⟩ := hx.whole
      obtain ⟨hnet, hble⟩ := @final_net lib pcb chains t
      have hsame := netRecv_ignored hlib pcb (by rw [t.shared]; exact hforged) hrx hpos hle hbytes
      rw [hsame] at hnet hble
      refine ⟨hnet.trans h.net, ?_, fun hgoing => ?_⟩
      · exact (congrArg BleLink.bleCmdActive hble).trans h.active
      · exact (congrArg BleLink.bleCmdBuf hble).trans (h.buffer hgoing)

/-- The final state of the reporting machine is that of the transports. -/
theorem answer_final (as : List Arrival) : ∀ t : Transports,
    (answerMachine lib).final t as = (transportMachine lib).final t as := by
  induction as with
  | nil => exact fun _ => rfl
  | cons a as ih => exact fun t => ih _

theorem injected_unwinding (hlib : lib.OpensSealed) :
    Unwinding (answerMachine lib) Injected.arrivals (Transports.Injects lib) Alike where
  alike := by
    intro t u h a
    obtain ⟨hnext, hcalls⟩ := @Alike.step lib _ _ h a
    refine ⟨hnext, ?_⟩
    show (callMachine lib).trace _ _ = (callMachine lib).trace _ _
    rw [h.device, hcalls]
  inserted := by
    intro t u x h hx
    rw [answer_final]
    exact h.injected hlib hx

/-- Runs of the transports whose calls are the same but for forged
frames, wherever and however those are handed over. -/
theorem forged_calls_on_transports (hlib : lib.OpensSealed) {t u : Transports}
    {as bs : List Arrival} {calls : List (Call ⊕ Call)} (hdevice : t.device = u.device)
    (hwith : (transportMachine lib).trace t as = everything (fun c => [c]) calls)
    (hwithout : (transportMachine lib).trace u bs = own calls)
    (hforged : (callMachine lib).Inserts (fun c => [c])
      (fun s c => Forged lib s.1.noise c.data) (t.device, []) calls) :
    ((transportMachine lib).final t as).device = ((transportMachine lib).final u bs).device ∧
      ((callMachine lib).inserting (fun c => [c])).trace (t.device, []) calls
        = (callMachine lib).trace (u.device, []) (own calls) := by
  obtain ⟨hfinal, htrace⟩ := forged_calls_ignored hlib t.device [] hforged
  rw [← hwith, ← hwithout, transports_make, hdevice, transports_make] at hfinal
  rw [← hdevice]
  exact ⟨hfinal, htrace⟩

/-- Forged frames disturb no session. Whatever else arrives, and wherever
frames with CMD_ENCRYPTED that are not sealed under the receive key of the
session with the nonce expected there are inserted between two frames, in
any number, on either transport: the two runs end with the same device
and the same endpoint, and every other frame has the same response.
Nor does it matter how the frames come to be handed over, as long as
both runs hand over the same other ones. -/
theorem forged_frames_inert (hlib : lib.OpensSealed) :
    (∀ (t : Transports) (js : List (Arrival ⊕ Injected)),
      (answerMachine lib).Inserts Injected.arrivals (Transports.Injects lib) t js →
      let disturbed := (transportMachine lib).final t (everything Injected.arrivals js)
      let undisturbed := (transportMachine lib).final t (own js)
      disturbed.device = undisturbed.device ∧ disturbed.net = undisturbed.net ∧
        ((answerMachine lib).inserting Injected.arrivals).trace t js
          = (answerMachine lib).trace t (own js)) ∧
    ∀ (t u : Transports) (as bs : List Arrival) (calls : List (Call ⊕ Call)),
      t.device = u.device →
      (transportMachine lib).trace t as = everything (fun c => [c]) calls →
      (transportMachine lib).trace u bs = own calls →
      (callMachine lib).Inserts (fun c => [c]) (fun s c => Forged lib s.1.noise c.data)
        (t.device, []) calls →
      ((transportMachine lib).final t as).device = ((transportMachine lib).final u bs).device ∧
        ((callMachine lib).inserting (fun c => [c])).trace (t.device, []) calls
          = (callMachine lib).trace (u.device, []) (own calls) := by
  refine ⟨fun t js hinserts => ?_, fun t u as bs calls => forged_calls_on_transports hlib⟩
  obtain ⟨halike, htrace⟩ :=
    (injected_unwinding hlib).run js (⟨rfl, rfl, fun _ => rfl⟩ : Alike t t) hinserts
  rw [answer_final, answer_final] at halike
  exact ⟨halike.device, halike.net, htrace⟩

-- ============================================================ one insertion

theorem veiled_encrypt : veiledCrypto.encrypt = (toyCrypto none).encrypt := by
  unfold veiledCrypto
  dsimp only

theorem veiled_opensSealed : veiledCrypto.OpensSealed := by
  intro key nonce ad plaintext ciphertext h
  rw [veiled_encrypt]
  rw [veiled_decrypt] at h
  unfold toyCrypto at h ⊢
  dsimp only at h ⊢
  split at h
  next htag =>
    rw [← Option.some.inj h, ← htag, List.take_append_drop]
  next => cases h

/-- A frame with another counter, or with one that does not open. -/
theorem bench_forged {noise : NoiseIkCtx} {data : List UInt8}
    (hcommand : byteOf data 0 = bleCmdEncrypted)
    (h : (data.drop 1).take 8 ≠ leBytes 8 noise.receiveNonce.toNat ∨
      veiledCrypto.decrypt noise.receiveKey (noiseNonce noise.receiveNonce) [] (data.drop 9)
        = none) : Forged veiledCrypto noise data := by
  refine ⟨hcommand, ?_⟩
  rintro ⟨plaintext, ciphertext, hseal, rfl⟩
  have hbytes := leBytes_length 8 noise.receiveNonce.toNat
  rcases h with hcounter | hclosed
  · exact hcounter (List.take_left' hbytes)
  · have hrest : (bleCmdEncrypted :: (leBytes 8 noise.receiveNonce.toNat ++ ciphertext)).drop 9
        = ciphertext := List.drop_left' hbytes
    rw [veiled_encrypt] at hseal
    rw [hrest, veiled_decrypt, toyCrypto_lawful.decrypt_encrypt _ _ _ _ _ hseal] at hclosed
    cases hclosed

/-- A frame behind its length, in one segment of the bench's connection. -/
def wholeRecv (data : List UInt8) : Route :=
  .net 7 [[(be32 data.length ++ data).map benchByte]]

/-- The admin's next two commands, and between them what is forged: the
one before again, in two fragments; over TCP, one for a later turn and a
packet of 2000 zeros; and one under another key. -/
def disturbedSession : List (Arrival ⊕ Injected) :=
  [.inr ⟨sealedAt 0 stageFrame,
      .ble [⟨benchEnv, 1 :: (sealedAt 0 stageFrame).take 19⟩,
        ⟨benchEnv, 2 :: (sealedAt 0 stageFrame).drop 19⟩]⟩,
    .inl (wholeWrite (sealedAt 1 stageFrame)),
    .inr ⟨sealedAt 3 stageFrame, wholeRecv (sealedAt 3 stageFrame)⟩,
    .inr ⟨bleCmdEncrypted :: List.replicate 2000 0,
      wholeRecv (bleCmdEncrypted :: List.replicate 2000 0)⟩,
    .inr ⟨bleCmdEncrypted :: (leBytes 8 2 ++ List.replicate 17 0),
      .ble [⟨benchEnv, 0 :: bleCmdEncrypted :: (leBytes 8 2 ++ List.replicate 17 0)⟩]⟩,
    .inl (wholeWrite (sealedAt 2 [bleCmdCancel, 7, 0, 0, 0, 1, 0, 0, 0]))]

theorem wholeRecv_whole {t : Transports} {data : List UInt8} (hrx : t.net.netRx = [])
    (hpos : 0 < data.length) (hle : data.length ≤ netFrameMax - 4) :
    (wholeRecv data).Whole t data := by
  refine ⟨hrx, hpos, hle, ?_⟩
  rw [List.flatten_singleton, List.flatten_singleton, List.map_map]
  exact List.map_id _

/-- A frame in one fragment. -/
theorem fragments_one (env : FrameEnv) (data : List UInt8) :
    Fragments true data [⟨env, 0 :: data⟩] :=
  @Fragments.last true ⟨env, 0 :: data⟩ (List.cons_ne_nil _ _)
    (iff_of_true (show ((0 : UInt8) >>> 1).toNat = 0 by decide) rfl)
    (show ¬(0 : UInt8) &&& bleFragMore ≠ 0 by decide)

/-- A frame in two. -/
theorem fragments_two (env : FrameEnv) (n : Nat) (data : List UInt8) :
    Fragments true data [⟨env, 1 :: data.take n⟩, ⟨env, 2 :: data.drop n⟩] := by
  have hsecond : Fragments false (data.drop n) [⟨env, 2 :: data.drop n⟩] :=
    @Fragments.last false ⟨env, 2 :: data.drop n⟩ (List.cons_ne_nil _ _)
      (iff_of_false (show ((2 : UInt8) >>> 1).toNat ≠ 0 by decide) Bool.false_ne_true)
      (show ¬(2 : UInt8) &&& bleFragMore ≠ 0 by decide)
  have hboth : Fragments true (data.take n ++ data.drop n)
      [⟨env, 1 :: data.take n⟩, ⟨env, 2 :: data.drop n⟩] :=
    @Fragments.more true ⟨env, 1 :: data.take n⟩ _ _ (List.cons_ne_nil _ _)
      (iff_of_true (show ((1 : UInt8) >>> 1).toNat = 0 by decide) rfl)
      (show (1 : UInt8) &&& bleFragMore ≠ 0 by decide) hsecond
  rwa [List.take_append_drop] at hboth

theorem disturbedSession_injects :
    (answerMachine veiledCrypto).Inserts Injected.arrivals (Transports.Injects veiledCrypto)
      (benchTransports benchSession.1) disturbedSession := by
  unfold disturbedSession
  refine ⟨⟨?_, rfl, fragments_two _ _ _⟩, trivial, ⟨?_, wholeRecv_whole ?_ ?_ ?_⟩,
    ⟨?_, wholeRecv_whole ?_ ?_ ?_⟩, ⟨?_, ?_, fragments_one _ _⟩, trivial, trivial⟩
  · exact bench_forged (by decide +kernel) (.inl (by decide +kernel))
  · exact bench_forged (by decide +kernel) (.inl (by decide +kernel))
  · decide +kernel
  · decide +kernel
  · decide +kernel
  · exact bench_forged (by decide +kernel) (.inl (by decide +kernel))
  · decide +kernel
  · decide +kernel
  · decide +kernel
  · exact bench_forged (by decide +kernel) (.inr (by decide +kernel))
  · decide +kernel

/-- The admin's next command, after one for a later turn. -/
def disturbedCalls : List (Call ⊕ Call) :=
  [.inr ⟨benchEnv, sealedAt 3 stageFrame⟩, .inl ⟨benchEnv, sealedAt 1 stageFrame⟩]

/-- The recovery admin's session under that traffic, both commands of
which are answered. -/
theorem forged_frames_inert_bench :
    let t := benchTransports benchSession.1
    let answers := (answerMachine veiledCrypto).trace t (own disturbedSession)
    (((transportMachine veiledCrypto).final t (everything Injected.arrivals
          disturbedSession)).device
        = ((transportMachine veiledCrypto).final t (own disturbedSession)).device ∧
      ((answerMachine veiledCrypto).inserting Injected.arrivals).trace t disturbedSession
        = answers) ∧
    (answers.map fun r => r.response.isSome) = [true, true] ∧
    ((callMachine veiledCrypto).inserting (fun c => [c])).trace (t.device, []) disturbedCalls
      = (callMachine veiledCrypto).trace (t.device, []) (own disturbedCalls) := by
  obtain ⟨hinserted, hhanded⟩ := forged_frames_inert veiled_opensSealed
  obtain ⟨hdevice, -, hanswers⟩ :=
    hinserted (benchTransports benchSession.1) disturbedSession disturbedSession_injects
  refine ⟨⟨hdevice, hanswers⟩, by decide +kernel, ?_⟩
  refine (hhanded (benchTransports benchSession.1) (benchTransports benchSession.1)
    [wholeWrite (sealedAt 3 stageFrame), wholeWrite (sealedAt 1 stageFrame)]
    [wholeWrite (sealedAt 1 stageFrame)] disturbedCalls rfl ?_ ?_ ⟨?_, trivial, trivial⟩).2
  · rw [trace_whole _ (by decide +kernel) (by decide +kernel),
      trace_whole _ (by decide +kernel) (by decide +kernel)]
    rfl
  · rw [trace_whole _ (by decide +kernel) (by decide +kernel)]
    rfl
  · exact bench_forged (by decide +kernel) (.inl (by decide +kernel))

end PicoBridge
