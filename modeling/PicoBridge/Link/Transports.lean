/-
The two transports on their one device, and what an outsider can do
through them.

# The system

The BLE characteristic and the TCP endpoint hand frames to the same
`command_process_frame`, and to the same Noise session. A run is any list
of arrivals: writes to the characteristic, and the callbacks and polls of
the endpoint. What it puts out is the calls that are made of it, in
order.

# The argument

Reassembly touches nothing of the device: what a run does to it is what
the calls do, one after the other (`transports_make`), whichever
transport a call comes from. So `Outsider.calls_inert` speaks of both.
-/
import PicoBridge.Device.Outsider
import PicoBridge.Link.Agree

namespace PicoBridge

open Lib (Machine)

-- ================================================================ the calls

variable (lib : Crypto)

/-- The call made of a write. -/
def bleCalls (w : BleWrite) (l : BleLink) : List Call :=
  ((cmdWriteCallback lib w.env w.buffer l).2.map fun data => ⟨w.env, data⟩).toList

/-- The call made of a byte, where it completes a frame. -/
def netByteCalls (x : RxByte) (n : NetEndpoint) : List Call :=
  let rx := n.netRx ++ [x.byte]
  if 4 ≤ n.netRx.length ∧ rx.length = (4 + be32Of rx) % 2 ^ 32 then [⟨x.env, rx.drop 4⟩] else []

def netSegmentCalls (pcb : Pcb) : List RxByte → NetEndpoint → List Call
  | [], _ => []
  | x :: xs, n =>
      let r := netRxByte lib pcb x n
      netByteCalls x n ++ if r.2.2 = .stop then [] else netSegmentCalls pcb xs r.1

def netChainCalls (pcb : Pcb) : PbufChain → NetEndpoint → List Call
  | [], _ => []
  | segment :: chain, n =>
      let r := netRxSegment lib pcb segment false n
      netSegmentCalls lib pcb segment n ++ if r.2.2 then [] else netChainCalls pcb chain r.1

/-- The calls made of an input. -/
def netCalls (i : NetInput) (n : NetEndpoint) : List Call :=
  match i with
  | .recv pcb (some chain) true =>
      if pcb ∈ n.live ∧ n.netSessionPcb = some pcb then netChainCalls lib pcb chain n else []
  | _ => []

-- ============================================================ the transports

/-- Of the endpoint's inputs, those of the transport. -/
def NetInput.arrives : NetInput → Bool
  | .elsewhere _ => false
  | _ => true

/-- Something on one of the transports. -/
inductive Arrival
  | ble (w : BleWrite)
  | net (i : NetInput) (arrives : i.arrives = true)

/-- The two transports, which share the device. -/
structure Transports where
  ble : BleLink
  net : NetEndpoint
  shared : net.device = ble.device

def Transports.device (t : Transports) : Device := t.ble.device

def transportMachine : Machine Transports Arrival Call where
  step t
    | .ble w =>
        let l := ((bleMachine lib).step t.ble w).1
        (⟨l, { t.net with device := l.device }, rfl⟩, bleCalls lib w t.ble)
    | .net i _ =>
        let n := ((netMachine lib).step t.net i).1
        (⟨{ t.ble with device := n.device }, n, rfl⟩, netCalls lib i t.net)

-- =========================================================== the calls made

/-- The calls are what a transport does to the device, and the frames
that are seen to be handed over. -/
structure Makes (d : Device) (frames : List (List UInt8)) (d' : Device) (cs : List Call) :
    Prop where
  device : ∀ spent, ((callMachine lib).final (d, spent) cs).1 = d'
  frames : cs.map Call.data = frames

variable {lib} {d d₁ d₂ : Device} {fs gs : List (List UInt8)} {cs cs' : List Call}

theorem Makes.none (d : Device) : Makes lib d [] d [] := ⟨fun _ => rfl, rfl⟩

/-- lwIP calls and returns hand no frame over. -/
theorem Makes.plain {es : List NetEvent} (hplain : ∀ e ∈ es, e.Plain) (hdevice : d₁ = d) :
    Makes lib d (framesIn es) d₁ [] := by
  have hframes : framesIn es = [] := by
    refine List.filterMap_eq_nil_iff.mpr fun e he => ?_
    cases e with
    | frame _ _ => exact absurd (hplain _ he) id
    | _ => rfl
  rw [hframes, hdevice]
  exact .none d

theorem Makes.append (h : Makes lib d fs d₁ cs) (h' : Makes lib d₁ gs d₂ cs') :
    Makes lib d (fs ++ gs) d₂ (cs ++ cs') := by
  refine ⟨fun spent => ?_, by rw [List.map_append, h.frames, h'.frames]⟩
  rw [Machine.final_append]
  have hfirst := h.device spent
  generalize (callMachine lib).final (d, spent) cs = s at hfirst ⊢
  obtain ⟨d', spent'⟩ := s
  subst hfirst
  exact h'.device spent'

theorem Makes.one (env : FrameEnv) (data : List UInt8) :
    Makes lib d [data] (commandProcessFrame lib d env data bridgeTransportResponseMax).2
      [⟨env, data⟩] := ⟨fun _ => rfl, rfl⟩

-- ================================================================ the writes

theorem bleHandleCommand_device (env : FrameEnv) (data : List UInt8) (l : BleLink) :
    (bleHandleCommand lib env data l).device
      = (commandProcessFrame lib l.device env data bridgeTransportResponseMax).2 := by
  unfold bleHandleCommand
  dsimp only
  split
  · rfl
  · generalize (if byteOf _ 0 = bleCmdNoise then _ else _ : List UInt8) = value
    split <;> rfl

/-- A write hands a command over or leaves the device. -/
theorem cmdWriteCallback_device (env : FrameEnv) (buffer : List UInt8) (l : BleLink) :
    let r := cmdWriteCallback lib env buffer l
    (r.2 = none ∧ r.1.device = l.device) ∨
      ∃ data, r.2 = some data ∧
        r.1.device = (commandProcessFrame lib l.device env data bridgeTransportResponseMax).2 := by
  cases buffer with
  | nil => exact .inl ⟨rfl, rfl⟩
  | cons fragHdr data =>
      unfold cmdWriteCallback
      dsimp only
      generalize (if fragHdr >>> 1 = 0 then [] else l.bleCmdBuf) = pos
      split
      · exact .inl ⟨rfl, rfl⟩
      split
      · exact .inl ⟨rfl, rfl⟩
      split
      · exact .inl ⟨rfl, rfl⟩
      split
      · exact .inl ⟨rfl, rfl⟩
      · exact .inr ⟨pos ++ data, rfl, bleHandleCommand_device env (pos ++ data) _⟩

theorem bleStep_makes (w : BleWrite) (l : BleLink) :
    Makes lib l.device (commandsIn (bleStep lib l w).2) (bleStep lib l w).1.device
      (bleCalls lib w l) := by
  unfold bleStep bleCalls
  dsimp only
  rcases cmdWriteCallback_device w.env w.buffer l with ⟨hnone, hdevice⟩ | ⟨data, hdata, hdevice⟩
  · rw [hnone, hdevice]
    exact .none _
  · rw [hdata, hdevice]
    exact .one w.env data

-- ================================================================= the bytes

theorem netProcessFrame_makes (pcb : Pcb) (env : FrameEnv) (room : TxRoom) (n : NetEndpoint) :
    let r := netProcessFrame lib pcb env room n
    Makes lib n.device (framesIn r.2) r.1.device [⟨env, n.netRx.drop 4⟩] := by
  have hone : Makes lib n.device [n.netRx.drop 4] _ _ := .one env (n.netRx.drop 4)
  dsimp only
  rcases netProcessFrame_cases lib pcb env room n with
    ⟨-, hr⟩ | ⟨-, -, hn, hes⟩ | ⟨resp, -, -, hr⟩
  · rw [hr]
    exact hone
  · rw [hn, hes, netSessionClose_device]
    refine ⟨hone.device, ?_⟩
    show _ = n.netRx.drop 4 :: framesIn (n.calls pcb _)
    rw [framesIn_calls]
    rfl
  · rw [hr]
    refine ⟨?_, ?_⟩
    · dsimp only
      rw [netSentCb_device]
      exact hone.device
    · show _ = n.netRx.drop 4 :: framesIn (netSentCb pcb room _).2
      rw [netSentCb_frames]
      rfl

theorem netRxByte_makes (pcb : Pcb) (x : RxByte) (n : NetEndpoint) :
    let r := netRxByte lib pcb x n
    Makes lib n.device (framesIn r.2.1) r.1.device (netByteCalls x n) := by
  unfold netRxByte
  dsimp only
  by_cases hhead : n.netRx.length < 4
  · have hnone : netByteCalls x n = [] := by
      unfold netByteCalls
      exact if_neg fun h => absurd h.1 (Nat.not_le.mpr hhead)
    rw [hnone, if_pos hhead]
    exact .none _
  rw [if_neg hhead]
  by_cases hfull : (n.netRx ++ [x.byte]).length = (4 + be32Of (n.netRx ++ [x.byte])) % 2 ^ 32
  · have hone : netByteCalls x n = [⟨x.env, (n.netRx ++ [x.byte]).drop 4⟩] := by
      unfold netByteCalls
      exact if_pos ⟨Nat.not_lt.mp hhead, hfull⟩
    rw [hone, if_pos hfull]
    exact netProcessFrame_makes pcb x.env x.room { n with netRx := n.netRx ++ [x.byte] }
  · have hnone : netByteCalls x n = [] := by
      unfold netByteCalls
      exact if_neg fun h => hfull h.2
    rw [hnone, if_neg hfull]
    exact .none _

theorem netRxSegment_makes (pcb : Pcb) (xs : List RxByte) : ∀ (overflow : Bool) (n : NetEndpoint),
    let r := netRxSegment lib pcb xs overflow n
    Makes lib n.device (framesIn r.2.1) r.1.device (netSegmentCalls lib pcb xs n) := by
  induction xs with
  | nil => exact fun _ n => .none n.device
  | cons x xs ih =>
      intro overflow n
      have hbyte := @netRxByte_makes lib pcb x n
      dsimp only [netRxSegment, netSegmentCalls] at hbyte ⊢
      cases hnext : (netRxByte lib pcb x n).2.2 with
      | stop =>
          rw [if_pos rfl, List.append_nil]
          exact hbyte
      | overflow =>
          rw [if_neg (by decide), framesIn_append]
          exact hbyte.append (ih true _)
      | more =>
          rw [if_neg (by decide), framesIn_append]
          exact hbyte.append (ih overflow _)

theorem netRxChain_makes (pcb : Pcb) (chain : PbufChain) : ∀ n : NetEndpoint,
    let r := netRxChain lib pcb chain n
    Makes lib n.device (framesIn r.2.1) r.1.device (netChainCalls lib pcb chain n) := by
  induction chain with
  | nil => exact fun n => .none n.device
  | cons segment chain ih =>
      intro n
      have hsegment := @netRxSegment_makes lib pcb segment false n
      dsimp only [netRxChain, netChainCalls] at hsegment ⊢
      by_cases hstop : (netRxSegment lib pcb segment false n).2.2 = true
      · rw [if_pos hstop, if_pos hstop, List.append_nil]
        exact hsegment
      · rw [if_neg hstop, if_neg hstop, framesIn_append]
        exact hsegment.append (ih _)

-- ================================================================ the inputs

theorem netSessionClose_plain (pcb : Option Pcb) (n : NetEndpoint) :
    ∀ e ∈ (netSessionClose pcb n).2, e.Plain := by
  cases pcb with
  | none => exact fun e he => absurd he List.not_mem_nil
  | some pcb => exact calls_plain n pcb _

theorem netCalls_none {pcb : Pcb} {p : Option PbufChain} {errOk : Bool} {n : NetEndpoint}
    (h : ¬(pcb ∈ n.live ∧ n.netSessionPcb = some pcb)) :
    netCalls lib (.recv pcb p errOk) n = [] := by
  unfold netCalls
  split
  next heq =>
    cases heq
    exact if_neg h
  next => rfl

theorem netCalls_recv {pcb : Pcb} {chain : PbufChain} {n : NetEndpoint} (hlive : pcb ∈ n.live)
    (hsession : n.netSessionPcb = some pcb) :
    netCalls lib (.recv pcb (some chain) true) n = netChainCalls lib pcb chain n :=
  if_pos ⟨hlive, hsession⟩

theorem netRecvCb_makes (pcb : Pcb) (p : Option PbufChain) (errOk : Bool) {n : NetEndpoint}
    (hlive : pcb ∈ n.live) :
    let r := netRecvCb lib pcb p errOk n
    Makes lib n.device (framesIn r.2) r.1.device (netCalls lib (.recv pcb p errOk) n) := by
  dsimp only
  unfold netRecvCb
  by_cases hsession : n.netSessionPcb = some pcb
  · rw [if_neg (not_not.mpr hsession)]
    have hclosed : Makes lib n.device (framesIn (netSessionClose (some pcb) n).2)
        (netSessionClose (some pcb) n).1.device [] :=
      .plain (netSessionClose_plain (some pcb) n) (netSessionClose_device (some pcb) n)
    cases p with
    | none => cases errOk <;> exact hclosed
    | some chain =>
        cases errOk with
        | false => exact hclosed
        | true =>
            have hchain := @netRxChain_makes lib pcb chain n
            dsimp only at hchain ⊢
            generalize netRxChain lib pcb chain n = r at hchain ⊢
            rw [netCalls_recv hlive hsession, framesIn_append, framesIn_append, framesIn_calls,
              List.append_nil]
            have hreceived : framesIn (.received pcb chain.bytes :: r.2.1) = framesIn r.2.1 := rfl
            rw [hreceived]
            have hend : Makes lib r.1.device
                (framesIn (if r.2.2 then netSessionClose (some pcb) r.1 else (r.1, [])).2)
                (if r.2.2 then netSessionClose (some pcb) r.1 else (r.1, [])).1.device [] := by
              split
              · exact .plain (netSessionClose_plain (some pcb) r.1)
                  (netSessionClose_device (some pcb) r.1)
              · exact .none _
            have hall := hchain.append hend
            rw [List.append_nil] at hall
            exact hall
  · rw [if_pos hsession]
    rw [netCalls_none fun h => hsession h.2]
    cases p with
    | none => exact .none _
    | some chain => exact .plain (calls_plain n pcb _) rfl

theorem netEndpointPoll_plain (env : NetPollEnv) (n : NetEndpoint) :
    ∀ e ∈ (netEndpointPoll env n).2, e.Plain := by
  rcases netEndpointPoll_cases env n with ⟨hnone, -⟩ | ⟨pcb, -, -, hcalls⟩
  · rw [hnone]
    exact fun e he => absurd he List.not_mem_nil
  · rw [hcalls]
    exact calls_plain n pcb _

theorem plain_returned {es : List NetEvent} {callback : NetCallback} {pcb : Pcb} {aborted : Bool}
    {err : LwipErr} (h : ∀ e ∈ es, e.Plain) :
    ∀ e ∈ es ++ [.returned callback pcb aborted err], e.Plain := by
  intro e he
  rcases List.mem_append.mp he with he | he
  · exact h e he
  · rw [List.mem_singleton.mp he]
    trivial

/-- An input of the endpoint. -/
theorem netStep_makes (i : NetInput) (harrives : i.arrives = true) (n : NetEndpoint) :
    let r := netStep lib n i
    Makes lib n.device (framesIn r.2) r.1.device (netCalls lib i n) := by
  cases i with
  | accept newpcb errOk =>
      cases newpcb with
      | none => cases errOk <;> exact .none _
      | some pcb =>
          unfold netStep
          dsimp only
          split
          · exact .none _
          · rcases netAcceptCb_cases pcb errOk { n with live := pcb :: n.live } with
              hr | hr | ⟨-, hr⟩
            all_goals
              rw [hr]
              refine .plain (plain_returned fun e he => ?_) rfl
            · cases he
            · exact calls_plain _ pcb _ e he
            · exact calls_plain _ pcb _ e he
  | recv pcb p errOk =>
      unfold netStep
      dsimp only
      split
      next hgone =>
        rw [netCalls_none fun h => hgone h.1]
        exact .none _
      next hlive =>
        have hnone : ∀ m : NetEndpoint, framesIn [returnedFrom .recv pcb n m .ok] = [] :=
          fun _ => rfl
        show Makes lib n.device (framesIn (_ ++ [_])) _ _
        rw [framesIn_append, hnone, List.append_nil]
        exact netRecvCb_makes pcb p errOk (not_not.mp hlive)
  | sent pcb room =>
      unfold netStep
      dsimp only
      split
      · exact .none _
      · obtain ⟨cs, hcs⟩ := netSentCb_calls pcb room n
        refine .plain (plain_returned ?_) (netSentCb_device pcb room n)
        rw [hcs]
        exact calls_plain n pcb cs
  | err pcb =>
      unfold netStep
      dsimp only
      split <;> exact .none _
  | poll env => exact .plain (netEndpointPoll_plain env n) (netEndpointPoll_device env n)
  | elsewhere device => cases harrives

-- ================================================================== the runs

variable (lib) in
/-- The frames that an arrival is seen to hand over. -/
def Transports.handed (t : Transports) : Arrival → List (List UInt8)
  | .ble w => commandsIn ((bleMachine lib).step t.ble w).2
  | .net i _ => framesIn ((netMachine lib).step t.net i).2

/-- The calls of an arrival. -/
theorem transportStep_makes (t : Transports) (a : Arrival) :
    let r := (transportMachine lib).step t a
    Makes lib t.device (t.handed lib a) r.1.device r.2 := by
  cases a with
  | ble w => exact bleStep_makes w t.ble
  | net i harrives =>
      have h := @netStep_makes lib i harrives t.net
      dsimp only at h
      rw [t.shared] at h
      exact h

/-- What arrives does to the device what the calls do. -/
theorem transports_make (arrivals : List Arrival) : ∀ (t : Transports) (spent : List Spent),
    ((callMachine lib).final (t.device, spent) ((transportMachine lib).trace t arrivals)).1
      = ((transportMachine lib).final t arrivals).device := by
  induction arrivals with
  | nil => exact fun _ _ => rfl
  | cons a arrivals ih =>
      intro t spent
      have hrest : Makes lib ((transportMachine lib).step t a).1.device _ _ _ := ⟨ih _, rfl⟩
      exact ((transportStep_makes t a).append hrest).device spent

/-- Traffic of an outsider is inert. Take any device that a life leads to
whose sessions have keys of their own, and any sender without a session
key and without the private key of an enrolled controller. Whatever it
sends on both transports, in any order, replays of what the device has
opened included: nothing of the device changes but the Noise session;
the session is the one before, or none, or one that the sender has no key
of; and only an initiator's message that names an enrolled controller is
answered. -/
theorem outsider_traffic_inert (o : Outsider lib) (keys : HeaderKeys) (store : StoreFlash)
    (radio : Sector) {is : List Happening} {d : Device} {spent : List Spent}
    (hfresh : (spentMachine lib keys).StepsMeet (FreshSessions lib) (.off store radio, []) is)
    (hd : (spentMachine lib keys).final (.off store radio, []) is = (.on d, spent))
    (houtside : o.Outside d) {t : Transports} (ht : t.device = d) {arrivals : List Arrival}
    (hsends : (callMachine lib).StepsMeet o.Sends (d, spent)
      ((transportMachine lib).trace t arrivals)) :
    let d' := ((transportMachine lib).final t arrivals).device
    (d'.core = d.core ∧ d'.controllers = d.controllers ∧ d'.store = d.store ∧
        d'.radio = d.radio) ∧
      o.NoSession d'.noise ∧
      ∀ report ∈ (callMachine lib).trace (d, spent) ((transportMachine lib).trace t arrivals),
        report.Inert o := by
  have hmakes := @transports_make lib arrivals t spent
  rw [ht] at hmakes
  have hholds : o.Holds d (d, spent) := ⟨rfl, houtside, behind_run keys store radio hfresh hd⟩
  obtain ⟨hafter, hreports⟩ := Outsider.calls_inert hholds hsends
  have hdevice := hafter.device
  have hsession := hafter.outside.session
  rw [hmakes] at hdevice hsession
  exact ⟨hdevice.kept, hsession, hreports⟩

-- ============================================================= one outsider

/-- A byte without the high bit. -/
def unmark (n : Nat) : UInt8 := UInt8.ofNat (n % 127)

/-- Such a byte of a message. -/
def digest (data : List UInt8) : UInt8 := unmark (data.foldl (fun n b => 3 * n + b.toNat) 0)

/-- A key that the outsider does not have: of the keys below, one whose
second byte is without the high bit. -/
def Unmarked (key : Key) : Prop := key[1] < 0x80

instance (key : Key) : Decidable (Unmarked key) := inferInstanceAs (Decidable (_ < _))

/-- Concrete calls on keys that count by their second byte. The mark of a
private key goes into its public key and its shared secrets. -/
def veiledCrypto : Crypto where
  sha256 data := some (tagKey (digest data))
  hmac key data := some (tagKey (digest (key[1] :: data)))
  hkdf salt ikm :=
    let prk := digest (salt[1] :: ikm)
    let t1 := tagKey (digest [prk, 1])
    some (t1, tagKey (digest (prk :: (t1.toList ++ [2]))))
  scalarmult scalar point :=
    let x := scalar[1] ^^^ point[1]
    some (if point = basepoint then xorKey scalar basepoint
      else tagKey (if Unmarked scalar ∧ Unmarked point then unmark x.toNat else x ||| 0x80))
  encrypt := (toyCrypto none).encrypt
  decrypt := (toyCrypto none).decrypt

theorem tagKey_unmarked (n : Nat) : Unmarked (tagKey (unmark n)) := by
  have hvalue : (unmark n).toNat = n % 127 :=
    UInt8.toNat_ofNat_of_lt' (show n % 127 < 256 by omega)
  unfold Unmarked tagKey
  rw [Vector.getElem_replicate, UInt8.lt_iff_toNat_lt, hvalue]
  show n % 127 < 128
  omega

/-- Two keys without the mark share one without it. -/
theorem veiled_dh {priv pub shared : Key} (h : x25519Dh veiledCrypto priv pub = some shared)
    (hpriv : Unmarked priv) (hpub : Unmarked pub) : Unmarked shared := by
  have hsecond : (clamp priv)[1] = priv[1] := by simp [clamp]
  have hclamp : Unmarked (clamp priv) := by
    unfold Unmarked
    rw [hsecond]
    exact hpriv
  rw [← Option.some.inj h]
  split
  · have hxor : (xorKey (clamp priv) basepoint)[1] = (clamp priv)[1] := by
      simp [xorKey, basepoint]
    unfold Unmarked
    rw [hxor]
    exact hclamp
  · rw [if_pos ⟨hclamp, hpub⟩]
    exact tagKey_unmarked _

/-- Whoever has the keys with the mark. -/
def benchOutsider : Outsider veiledCrypto where
  secret := Unmarked
  kdf h _ := by
    cases h
    exact ⟨tagKey_unmarked _, tagKey_unmarked _⟩
  mix h _ := by
    cases h
    exact ⟨tagKey_unmarked _, tagKey_unmarked _⟩
  dh hpair hshared ha hb := veiled_dh hshared ha (veiled_dh hpair hb (by decide))

/-- The frame of a host's first message that names `staticPub`. -/
def helloFrame (staticPriv staticPub ephPriv devicePub : Key) : List UInt8 :=
  match NoiseIKInitiator.new veiledCrypto staticPriv devicePub with
  | none => []
  | some host =>
      match beginHandshake veiledCrypto ephPriv { host with staticPub := staticPub } with
      | .ok message _ => bleCmdNoise :: message
      | .error _ _ => []

/-- The recovery admin's. -/
def genuineHello : List UInt8 :=
  helloFrame (tagKey 2) (toyPublic (tagKey 2)) (tagKey 3) (toyPublic (tagKey 1))

/-- The outsider's, who has the two private keys of it, and names the
recovery admin. -/
def forgedHello : List UInt8 :=
  helloFrame (tagKey 0xee) (toyPublic (tagKey 2)) (tagKey 0xee) (toyPublic (tagKey 1))

/-- The device after its first boot. -/
def veiledBench : Device :=
  bootDevice veiledCrypto benchKeys benchProvisioning.imported benchFlash erasedSector

/-- The same after frames. -/
def benchAfter (frames : List (List UInt8)) : Device × List Spent :=
  (callMachine veiledCrypto).final (veiledBench, []) (frames.map fun data => ⟨benchEnv, data⟩)

/-- A command of the recovery admin's session, which has receive key 20,
under its counter. -/
def sealedAt (n : UInt64) (plaintext : List UInt8) : List UInt8 :=
  bleCmdEncrypted ::
    (leBytes 8 n.toNat ++ (plaintext ++ toyTag none (tagKey 20) (noiseNonce n) [] plaintext))

/-- The life that leads there. -/
def benchLife (frames : List (List UInt8)) : List Happening :=
  .boot .ok .ok :: frames.map (.frame benchEnv)

theorem veiled_boots :
    bootPower veiledCrypto benchKeys (.off erasedFlash erasedSector) .ok .ok = .on veiledBench :=
  bootPower_on bench_setup

theorem benchLife_final (frames : List (List UInt8)) :
    (spentMachine veiledCrypto benchKeys).final (.off erasedFlash erasedSector, [])
      (benchLife frames) = (.on (benchAfter frames).1, (benchAfter frames).2) := by
  have hboot : ((spentMachine veiledCrypto benchKeys).step (.off erasedFlash erasedSector, [])
      (.boot .ok .ok)).1 = (.on veiledBench, []) := congrArg (·, []) veiled_boots
  have hcalls := @spent_calls veiledCrypto benchKeys
    (frames.map fun data => ⟨benchEnv, data⟩) (veiledBench, [])
  rw [List.map_map] at hcalls
  unfold benchLife
  rw [Machine.final_cons, hboot]
  exact hcalls

/-- The recovery admin has private key 2, the first controller 6. -/
theorem bench_outside {d : Device}
    (hslots : d.controllers.slots = benchProvisioning.imported.slots)
    (hkeys : d.noise.ready = true → Unmarked d.noise.receiveKey ∧ Unmarked d.noise.sendKey) :
    benchOutsider.Outside d := by
  refine ⟨hkeys, ?_⟩
  rw [hslots]
  intro i hused
  have hfirst : veiledCrypto.scalarmult (clamp (tagKey 2)) basepoint
      = some (toyPublic (tagKey 2)) := by decide +kernel
  have hsecond : veiledCrypto.scalarmult (clamp (tagKey 6)) basepoint
      = some (toyPublic (tagKey 6)) := by decide +kernel
  have hkey : ∀ i, (benchProvisioning.imported.slots i).used →
      (benchProvisioning.imported.slots i).publicKey = toyPublic (tagKey 2) ∨
        (benchProvisioning.imported.slots i).publicKey = toyPublic (tagKey 6) := by
    decide +kernel
  rcases hkey i hused with h | h
  · rw [h]
    exact ⟨tagKey 2, hfirst, show Unmarked (tagKey 2) by decide⟩
  · rw [h]
    exact ⟨tagKey 6, hsecond, show Unmarked (tagKey 6) by decide⟩

/-- A write of a whole frame. -/
def wholeWrite (data : List UInt8) : Arrival := .ble ⟨benchEnv, 0 :: data⟩

theorem trace_whole (t : Transports) {data : List UInt8} (hne : data ≠ [])
    (hlen : data.length ≤ bleCmdBufMax) (arrivals : List Arrival) :
    (transportMachine lib).trace t (wholeWrite data :: arrivals)
      = ⟨benchEnv, data⟩ :: (transportMachine lib).trace
          ((transportMachine lib).step t (wholeWrite data)).1 arrivals := by
  have hwrite := @cmdWriteCallback_taken lib benchEnv 0 false data t.ble (by decide) hne
    (fun h => absurd rfl h) (by simpa using hlen)
  have hcalls : bleCalls lib ⟨benchEnv, 0 :: data⟩ t.ble = [⟨benchEnv, data⟩] := by
    dsimp only at hwrite
    unfold bleCalls
    rw [show (0 : UInt8) = fragHdrOf 0 false from rfl, hwrite]
    rfl
  exact congrArg (· ++ (transportMachine lib).trace _ arrivals) hcalls

theorem trace_net (t : Transports) (i : NetInput) (harrives : i.arrives = true)
    (arrivals : List Arrival) :
    (transportMachine lib).trace t (.net i harrives :: arrivals) = netCalls lib i t.net ++
      (transportMachine lib).trace ((transportMachine lib).step t (.net i harrives)).1 arrivals :=
  rfl

/-- A plaintext command of one byte, over TCP. -/
def pingRecv : NetInput := .recv 7 (some [[0, 0, 0, 1, 9].map benchByte]) true

theorem netChainCalls_segment (pcb : Pcb) (segment : List RxByte) (n : NetEndpoint) :
    netChainCalls lib pcb [segment] n = netSegmentCalls lib pcb segment n := by
  unfold netChainCalls
  dsimp only [netChainCalls]
  rw [ite_self, List.append_nil]

theorem ping_calls (d : Device) :
    netCalls lib pingRecv { benchOpen with device := d } = [⟨envAt 1000, [9]⟩] := by
  have hhead : be32Of [0, 0, 0, 1] = 1 := by decide
  have hwhole : be32Of [0, 0, 0, 1, 9] = 1 := by decide
  have hlive : 7 ∈ ({ benchOpen with device := d } : NetEndpoint).live := List.mem_singleton_self 7
  rw [pingRecv, netCalls_recv hlive rfl, netChainCalls_segment]
  simp [netSegmentCalls, netRxByte, netByteCalls, benchOpen, netEndpointInit, benchByte, hhead,
    hwhole, netFrameMax]

/-- The transports of a device, with a TCP session between two frames. -/
def benchTransports (d : Device) : Transports :=
  ⟨{ benchLink with device := d }, { benchOpen with device := d }, rfl⟩

/-- The recovery admin's session, after one command. -/
def benchSession : Device × List Spent := benchAfter [genuineHello, sealedAt 0 stageFrame]

/-- What the outsider sends: a plaintext command over TCP, and over BLE
the admin's command again, the forged message and a packet of zeros. -/
def outsiderTraffic : List Arrival :=
  [.net pingRecv (by decide), wholeWrite (sealedAt 0 stageFrame), wholeWrite forgedHello,
    wholeWrite (bleCmdEncrypted :: List.replicate 24 0)]

def outsiderCalls : List Call :=
  [⟨envAt 1000, [9]⟩, ⟨benchEnv, sealedAt 0 stageFrame⟩, ⟨benchEnv, forgedHello⟩,
    ⟨benchEnv, bleCmdEncrypted :: List.replicate 24 0⟩]

theorem outsiderTraffic_calls (d : Device) :
    (transportMachine veiledCrypto).trace (benchTransports d) outsiderTraffic = outsiderCalls := by
  unfold outsiderTraffic
  rw [trace_net, trace_whole _ (by decide +kernel) (by decide +kernel),
    trace_whole _ (by decide +kernel) (by decide +kernel), trace_whole _ (by decide) (by decide),
    benchTransports, ping_calls]
  rfl

/-- The bytes of a tag that are its key's. -/
def keyBytes (key : Key) : List UInt8 := (List.range 7).map fun i => key.toList.getD i 0

theorem veiled_opens {key : Key} {nonce c p : List UInt8}
    (h : veiledCrypto.decrypt key nonce [] c = some p) :
    (c.drop (c.length - 16)).drop 9 = keyBytes key := by
  have hopen : (if c.drop (c.length - 16) = toyTag none key nonce [] (c.take (c.length - 16)) then
      some (c.take (c.length - 16)) else none) = some p := h
  have htail : (toyTag none key nonce [] (c.take (c.length - 16))).drop 9 = keyBytes key := rfl
  split at hopen
  next htag => rw [htag, htail]
  next => cases hopen

theorem sealedAt_drop (n : UInt64) (p : List UInt8) :
    (sealedAt n p).drop 9
      = p ++ toyTag none (tagKey 20) (noiseNonce n) [] p :=
  List.drop_left' (leBytes_length 8 n.toNat)

theorem veiled_decrypt : veiledCrypto.decrypt = (toyCrypto none).decrypt := by
  unfold veiledCrypto
  dsimp only

theorem benchEnv_secret (priv pub : Key) (h : benchEnv.responderEph = some (priv, pub)) :
    benchOutsider.secret priv := by
  cases h
  exact show Unmarked (tagKey 4) by decide

/-- A frame whose tag is another key's. -/
theorem bench_sends {s : Device × List Spent} {c : Call}
    (hkey : ((c.data.drop 9).drop ((c.data.drop 9).length - 16)).drop 9
      ≠ keyBytes s.1.noise.receiveKey)
    (heph : ∀ priv pub, c.env.responderEph = some (priv, pub) → benchOutsider.secret priv)
    (hfresh : FreshSession veiledCrypto s.1 s.2 c) : benchOutsider.Sends s c :=
  ⟨fun _ _ _ _ hopen => absurd (veiled_opens hopen) hkey, heph, hfresh⟩

/-- The admin's command, once it is spent. -/
theorem bench_replays {s : Device × List Spent}
    (hkey : s.1.noise.receiveKey = tagKey 20)
    (hspent : s.2 = [⟨tagKey 20, 0, (sealedAt 0 stageFrame).drop 9⟩])
    (hfresh : FreshSession veiledCrypto s.1 s.2 ⟨benchEnv, sealedAt 0 stageFrame⟩) :
    benchOutsider.Sends s ⟨benchEnv, sealedAt 0 stageFrame⟩ := by
  refine ⟨fun _ _ n p hopen => ?_, benchEnv_secret, hfresh⟩
  have hcount : n = 0 := by
    dsimp only at hopen
    rw [hkey, sealedAt_drop, veiled_decrypt] at hopen
    exact (toy_opens hopen).1
  rw [hspent, hkey, hcount]
  exact List.mem_singleton_self _

theorem outsiderCalls_sends :
    (callMachine veiledCrypto).StepsMeet benchOutsider.Sends benchSession outsiderCalls := by
  unfold outsiderCalls
  refine ⟨?_, ?_, ?_, ?_, trivial⟩
  · exact bench_sends (by decide +kernel) (fun _ _ h => by cases h) (by decide +kernel)
  · exact bench_replays (by decide +kernel) (by decide +kernel) (by decide +kernel)
  · exact bench_sends (by decide +kernel) benchEnv_secret (by decide +kernel)
  · exact bench_sends (by decide +kernel) benchEnv_secret (by decide +kernel)

/-- The recovery admin's session under that traffic. -/
theorem outsider_traffic_inert_bench :
    let d := benchSession.1
    let d' := ((transportMachine veiledCrypto).final (benchTransports d) outsiderTraffic).device
    (d'.core = d.core ∧ d'.controllers = d.controllers ∧ d'.store = d.store ∧
        d'.radio = d.radio) ∧
      benchOutsider.NoSession d'.noise ∧
      ∀ report ∈ (callMachine veiledCrypto).trace benchSession
          ((transportMachine veiledCrypto).trace (benchTransports d) outsiderTraffic),
        report.Inert benchOutsider := by
  have hnot : ¬IsHandshake (sealedAt 0 stageFrame) := by decide +kernel
  have hfresh : (spentMachine veiledCrypto benchKeys).StepsMeet (FreshSessions veiledCrypto)
      (.off erasedFlash erasedSector, []) (benchLife [genuineHello, sealedAt 0 stageFrame]) :=
    ⟨trivial, fun _ _ _ _ s hs => (by cases hs),
      fun _ _ hhandshake => absurd hhandshake hnot, trivial⟩
  refine outsider_traffic_inert benchOutsider benchKeys erasedFlash erasedSector hfresh
    (benchLife_final _) (bench_outside (by decide +kernel) (by decide +kernel)) rfl ?_
  rw [outsiderTraffic_calls]
  exact outsiderCalls_sends

/-- Both ends of what an outsider can do. Before anyone has spoken to the
device, a message that the outsider makes of keys that it has and of
public ones is answered; and a command that was handed over out of turn,
and refused, is dispatched when it is replayed in its turn. -/
theorem outsider_answered :
    (∃ d spent response,
      (spentMachine veiledCrypto benchKeys).final (.off erasedFlash erasedSector, [])
          (benchLife []) = (.on d, spent) ∧
        benchOutsider.Outside d ∧ ¬benchOutsider.secret (tagKey 0xee) ∧
        (commandProcessFrame veiledCrypto d benchEnv forgedHello bridgeTransportResponseMax).1
          = some response) ∧
    ∃ d spent,
      (spentMachine veiledCrypto benchKeys).final (.off erasedFlash erasedSector, [])
          (benchLife [genuineHello, sealedAt 1 stageFrame, sealedAt 0 [4, 0, 0, 0, 0]])
          = (.on d, spent) ∧
        benchOutsider.Outside d ∧
        (commandProcessFrame veiledCrypto d benchEnv (sealedAt 1 stageFrame)
          bridgeTransportResponseMax).2.core ≠ d.core := by
  have hunmarked : ¬benchOutsider.secret (tagKey 0xee) := fun h =>
    (show ¬Unmarked (tagKey 0xee) by decide) h
  refine ⟨?_, ?_⟩
  · have hanswer : (commandProcessFrame veiledCrypto (benchAfter []).1 benchEnv forgedHello
        bridgeTransportResponseMax).1.isSome := by decide +kernel
    obtain ⟨response, hresponse⟩ := Option.isSome_iff_exists.mp hanswer
    exact ⟨_, _, response, benchLife_final [], bench_outside rfl (by decide +kernel), hunmarked,
      hresponse⟩
  · refine ⟨_, _, benchLife_final _, bench_outside (by decide +kernel) (by decide +kernel), ?_⟩
    intro hsame
    have howner := congrArg BridgeCore.owner hsame
    exact absurd howner (by decide +kernel)

end PicoBridge
