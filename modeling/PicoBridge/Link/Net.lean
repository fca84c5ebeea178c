/-
`firmware/net_endpoint.c`: the lwIP callbacks of the TCP endpoint and
`net_endpoint_poll`, as one machine over the endpoint's statics.

# The runs

An input is one callback of lwIP, one poll of the main loop, or whatever
else the rest of the firmware does to the device. lwIP runs a callback of
a connection only while its `tcp_pcb` is there, and accepts a connection
in one that is not; `live` is that, and no function of the source reads
it.

# What is modelled how

- `net_rx` is the list `net_rx[0 .. net_rx_len)`, `net_pending_tx` the
  list of what is to be sent. The index of every write into `net_rx` is an
  event, and so is every lwIP call on a connection's pcb, with whether
  the pcb is still there.
- Each received byte carries what a frame that it finishes meets: the
  frame's environment and the room of the connection's send buffer.
- The listener's pcb is never aborted, so it is a flag. Radio calls
  (`cyw43_*`) are the poll's readings of them.
-/
import PicoBridge.Device.Dispatch

namespace PicoBridge

open Lib (Machine)

-- ======================================================= what is observed

/-- A `struct tcp_pcb *` of an accepted connection. -/
abbrev Pcb := Nat

/-- The `err_t` values that the callbacks return. -/
inductive LwipErr
  | ok
  | val
  | abrt
  deriving DecidableEq, Repr

/-- The lwIP calls on a connection's pcb. -/
inductive LwipCall
  | arg
  | recv
  | err
  | sent
  | abort
  | recved (n : Nat)
  | sndbuf
  | write (bytes : List UInt8)
  | output
  | nagleDisable
  deriving DecidableEq, Repr

/-- The callbacks whose return value lwIP reads. -/
inductive NetCallback
  | accept
  | recv
  | sent
  deriving DecidableEq, Repr

/-- What an observer of the endpoint sees. -/
inductive NetEvent
  /-- Bytes handed to the receive callback of the open session. -/
  | received (pcb : Pcb) (bytes : List UInt8)
  /-- A write into `net_rx`. -/
  | store (index : Nat)
  /-- A call of `command_process_frame`. -/
  | frame (pcb : Pcb) (data : List UInt8)
  /-- A response that finds the one before it not sent. -/
  | undrained (pcb : Pcb)
  /-- An lwIP call, and whether its pcb is live. -/
  | call (call : LwipCall) (pcb : Pcb) (live : Bool)
  /-- A callback's return, and whether its own pcb was aborted in it. -/
  | returned (callback : NetCallback) (pcb : Pcb) (aborted : Bool) (err : LwipErr)
  deriving DecidableEq, Repr

-- ======================================================= the environment

/-- The send buffer: `tcp_sndbuf`, and whether `tcp_write` takes what is
given. -/
structure TxRoom where
  space : Nat
  writes : Bool

/-- A received byte, with what a frame meets that it finishes. -/
structure RxByte where
  byte : UInt8
  env : FrameEnv
  room : TxRoom

/-- A pbuf chain, segment by segment. -/
abbrev PbufChain := List (List RxByte)

/-- The bytes of a chain. -/
def PbufChain.bytes (chain : PbufChain) : List UInt8 := chain.flatten.map RxByte.byte

/-- What one `net_endpoint_poll` reads. -/
structure NetPollEnv where
  nowMs : UInt32
  haveIp : Bool
  radioRecord : Bool
  connectOk : Bool
  listenOk : Bool
  linkBelowJoin : Bool

/-- A callback of lwIP, a poll, or what else happens to the device. -/
inductive NetInput
  | accept (newpcb : Option Pcb) (errOk : Bool)
  | recv (pcb : Pcb) (p : Option PbufChain) (errOk : Bool)
  | sent (pcb : Pcb) (room : TxRoom)
  | err (pcb : Pcb)
  | poll (env : NetPollEnv)
  | elsewhere (device : Device)

-- ============================================================= the state

inductive NetState
  | noRecord
  | retryWait
  | connecting
  | ready
  deriving DecidableEq, Repr

/-- The device, the endpoint's statics, and the pcbs lwIP has. -/
structure NetEndpoint where
  device : Device
  netState : NetState
  netRetryAtMs : UInt32
  netRetryDelayMs : UInt32
  netListenerOk : Bool
  netListener : Bool
  netSessionPcb : Option Pcb
  netRx : List UInt8
  netPendingTx : List UInt8
  live : List Pcb

/-- The endpoint's statics as C initialises them. -/
def netEndpointInit (device : Device) : NetEndpoint where
  device := device
  netState := .noRecord
  netRetryAtMs := 0
  netRetryDelayMs := 3000
  netListenerOk := false
  netListener := false
  netSessionPcb := none
  netRx := []
  netPendingTx := []
  live := []

/-- `net_endpoint_start`, by whether there is a radio record. -/
def netEndpointStart (radioRecord : Bool) (n : NetEndpoint) : NetEndpoint :=
  if ¬radioRecord then { n with netState := .noRecord }
  else { n with netState := .retryWait, netRetryAtMs := 0, netRetryDelayMs := 3000 }

def netFrameMax : Nat := 2048
def netConnectTimeoutMs : UInt32 := 20000
def netRetryMaxMs : UInt32 := 30000

-- =========================================================== the session

/-- `net_reset_frame`. -/
def netResetFrame (n : NetEndpoint) : NetEndpoint := { n with netRx := [], netPendingTx := [] }

/-- An lwIP call on a pcb, as it is observed. -/
def NetEndpoint.calls (n : NetEndpoint) (pcb : Pcb) (calls : List LwipCall) : List NetEvent :=
  calls.map fun c => .call c pcb (decide (pcb ∈ n.live))

/-- `net_session_close`. -/
def netSessionClose (pcb : Option Pcb) (n : NetEndpoint) : NetEndpoint × List NetEvent :=
  match pcb with
  | none => (n, [])
  | some pcb =>
      (netResetFrame
        { n with
          netSessionPcb := if n.netSessionPcb = some pcb then none else n.netSessionPcb
          live := n.live.filter (· ≠ pcb) },
       n.calls pcb [.arg, .recv, .err, .sent, .abort])

/-- `net_sent_cb`, which returns ERR_OK on every path. -/
def netSentCb (pcb : Pcb) (room : TxRoom) (n : NetEndpoint) : NetEndpoint × List NetEvent :=
  if n.netSessionPcb ≠ some pcb then (n, [])
  else if n.netPendingTx.length = 0 then (n, [])
  else if room.space = 0 then (n, n.calls pcb [.sndbuf])
  else
    let len := if n.netPendingTx.length < room.space then n.netPendingTx.length % 65536
      else room.space % 65536
    if ¬room.writes then (n, n.calls pcb [.sndbuf])
    else
      ({ n with netPendingTx := n.netPendingTx.drop len },
       n.calls pcb [.sndbuf, .write (n.netPendingTx.take len), .output])

/-- The big-endian `uint32_t` at the head of a buffer. -/
def be32Of (p : List UInt8) : Nat :=
  leValue [byteOf p 3, byteOf p 2, byteOf p 1, byteOf p 0]

/-- A big-endian `uint32_t`. -/
def be32 (n : Nat) : List UInt8 := (leBytes 4 n).reverse

variable (lib : Crypto)

/-- `net_process_frame`. -/
def netProcessFrame (pcb : Pcb) (env : FrameEnv) (room : TxRoom) (n : NetEndpoint) :
    NetEndpoint × List NetEvent :=
  let data := n.netRx.drop 4
  let r := commandProcessFrame lib n.device env data bridgeTransportResponseMax
  let n := { n with device := r.2, netRx := [] }
  match r.1 with
  | none => (n, [.frame pcb data])
  | some resp =>
      if n.netPendingTx.length ≠ 0 then
        let q := netSessionClose (some pcb) n
        (q.1, .frame pcb data :: .undrained pcb :: q.2)
      else
        let q := netSentCb pcb room { n with netPendingTx := be32 resp.length ++ resp }
        (q.1, .frame pcb data :: q.2)

-- =========================================================== the receiver

/-- How `net_recv_cb` goes on after a byte: with the next one, with the
next one but not the next segment (`overflow`), or not at all (`break`). -/
inductive RxNext
  | more
  | overflow
  | stop
  deriving DecidableEq

/-- The body of the inner loop of `net_recv_cb`. -/
def netRxByte (pcb : Pcb) (x : RxByte) (n : NetEndpoint) : NetEndpoint × List NetEvent × RxNext :=
  let rx := n.netRx ++ [x.byte]
  let flen := be32Of rx
  let stored := { n with netRx := rx }
  if n.netRx.length < 4 then
    (stored, [.store n.netRx.length],
     if rx.length = 4 ∧ (flen = 0 ∨ flen > netFrameMax - 4) then .overflow else .more)
  else
    let r := if rx.length = (4 + flen) % 2 ^ 32 then netProcessFrame lib pcb x.env x.room stored
      else (stored, [])
    (r.1, .store n.netRx.length :: r.2, if r.1.netSessionPcb = none then .stop else .more)

/-- The inner loop, with `overflow` as it stands. -/
def netRxSegment (pcb : Pcb) : List RxByte → Bool → NetEndpoint → NetEndpoint × List NetEvent × Bool
  | [], overflow, n => (n, [], overflow)
  | x :: xs, overflow, n =>
      let r := netRxByte lib pcb x n
      match r.2.2 with
      | .stop => (r.1, r.2.1, true)
      | .overflow =>
          let q := netRxSegment pcb xs true r.1
          (q.1, r.2.1 ++ q.2.1, q.2.2)
      | .more =>
          let q := netRxSegment pcb xs overflow r.1
          (q.1, r.2.1 ++ q.2.1, q.2.2)

/-- The outer loop. -/
def netRxChain (pcb : Pcb) : PbufChain → NetEndpoint → NetEndpoint × List NetEvent × Bool
  | [], n => (n, [], false)
  | segment :: chain, n =>
      let r := netRxSegment lib pcb segment false n
      if r.2.2 then r
      else
        let q := netRxChain pcb chain r.1
        (q.1, r.2.1 ++ q.2.1, q.2.2)

/-- `net_recv_cb`, which returns ERR_OK on every path. -/
def netRecvCb (pcb : Pcb) (p : Option PbufChain) (errOk : Bool) (n : NetEndpoint) :
    NetEndpoint × List NetEvent :=
  if n.netSessionPcb ≠ some pcb then
    (n, match p with
        | some chain => n.calls pcb [.recved (chain.bytes.length % 65536)]
        | none => [])
  else
    match errOk, p with
    | true, some chain =>
        let r := netRxChain lib pcb chain n
        let recved := r.1.calls pcb [.recved (chain.bytes.length % 65536)]
        let q := if r.2.2 then netSessionClose (some pcb) r.1 else (r.1, [])
        (q.1, .received pcb chain.bytes :: r.2.1 ++ recved ++ q.2)
    | _, _ => netSessionClose (some pcb) n

-- ===================================================== the other callbacks

/-- `net_err_cb`: lwIP has freed the pcb. -/
def netErrCb (n : NetEndpoint) : NetEndpoint := netResetFrame { n with netSessionPcb := none }

/-- `net_accept_cb`. -/
def netAcceptCb (newpcb : Option Pcb) (errOk : Bool) (n : NetEndpoint) :
    NetEndpoint × List NetEvent × LwipErr :=
  match errOk, newpcb with
  | true, some newpcb =>
      if n.netSessionPcb.isSome ∨ n.netPendingTx.length ≠ 0 then
        ({ n with live := n.live.filter (· ≠ newpcb) }, n.calls newpcb [.abort], .abrt)
      else
        (netResetFrame { n with netSessionPcb := some newpcb },
         n.calls newpcb [.arg, .recv, .err, .sent, .nagleDisable], .ok)
  | _, _ => (n, [], .val)

-- ================================================================ the poll

/-- The doubling of the retry delay. -/
def netBackOff (delay : UInt32) : UInt32 :=
  if delay < netRetryMaxMs then
    if delay * 2 > netRetryMaxMs then netRetryMaxMs else delay * 2
  else delay

/-- The retry, after a failed attempt. -/
def netRetryLater (nowMs : UInt32) (n : NetEndpoint) : NetEndpoint :=
  { n with
    netRetryAtMs := nowMs + n.netRetryDelayMs
    netRetryDelayMs := netBackOff n.netRetryDelayMs }

/-- `net_endpoint_poll`. -/
def netEndpointPoll (env : NetPollEnv) (n : NetEndpoint) : NetEndpoint × List NetEvent :=
  match n.netState with
  | .noRecord => (n, [])
  | .retryWait =>
      if (env.nowMs - n.netRetryAtMs).toInt32 < 0 then (n, [])
      else if env.haveIp then
        ({ n with netState := .connecting, netRetryAtMs := env.nowMs + netConnectTimeoutMs }, [])
      else if ¬env.radioRecord then ({ n with netState := .noRecord }, [])
      else if ¬env.connectOk then (netRetryLater env.nowMs n, [])
      else
        ({ n with netState := .connecting, netRetryAtMs := env.nowMs + netConnectTimeoutMs }, [])
  | .connecting =>
      let started := n.netListener || env.listenOk
      let n := if env.haveIp then { n with netListenerOk := started, netListener := started } else n
      if env.haveIp ∧ n.netListenerOk then
        ({ n with netRetryDelayMs := 3000, netState := .ready }, [])
      else if 0 ≤ (env.nowMs - n.netRetryAtMs).toInt32 ∧ env.linkBelowJoin then
        ({ netRetryLater env.nowMs n with netState := .retryWait }, [])
      else (n, [])
  | .ready =>
      if env.haveIp then (n, [])
      else
        let r := netSessionClose n.netSessionPcb n
        ({ r.1 with
            netState := .connecting
            netRetryAtMs := env.nowMs + netConnectTimeoutMs }, r.2)

-- ============================================================= the machine

/-- A callback's return, with whether its pcb went. -/
def returnedFrom (callback : NetCallback) (pcb : Pcb) (before after : NetEndpoint)
    (err : LwipErr) : NetEvent :=
  .returned callback pcb (decide (pcb ∈ before.live ∧ pcb ∉ after.live)) err

/-- One input. A callback of a pcb that is not there, and a connection in
one that is, do not happen. A pcb refused with ERR_VAL is freed by lwIP. -/
def netStep (n : NetEndpoint) : NetInput → NetEndpoint × List NetEvent
  | .accept none errOk =>
      let r := netAcceptCb none errOk n
      (r.1, r.2.1)
  | .accept (some pcb) errOk =>
      if pcb ∈ n.live then (n, [])
      else
        let n := { n with live := pcb :: n.live }
        let r := netAcceptCb (some pcb) errOk n
        (if r.2.2 = .val then { r.1 with live := r.1.live.filter (· ≠ pcb) } else r.1,
         r.2.1 ++ [returnedFrom .accept pcb n r.1 r.2.2])
  | .recv pcb p errOk =>
      if pcb ∉ n.live then (n, [])
      else
        let r := netRecvCb lib pcb p errOk n
        (r.1, r.2 ++ [returnedFrom .recv pcb n r.1 .ok])
  | .sent pcb room =>
      if pcb ∉ n.live then (n, [])
      else
        let r := netSentCb pcb room n
        (r.1, r.2 ++ [returnedFrom .sent pcb n r.1 .ok])
  | .err pcb =>
      if pcb ∉ n.live then (n, [])
      else (netErrCb { n with live := n.live.filter (· ≠ pcb) }, [])
  | .poll env => netEndpointPoll env n
  | .elsewhere device => ({ n with device := device }, [])

/-- The endpoint as an input/output machine. -/
def netMachine : Machine NetEndpoint NetInput NetEvent := ⟨netStep lib⟩

end PicoBridge
