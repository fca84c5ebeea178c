/-
The frame parser of the TCP endpoint, over every run: what it hands to
`command_process_frame` is what a byte stream's frames are.

# The specification

`netFormat` is the framing that both sides speak: a big-endian length of
four bytes, from 1 to 2044, and as many bytes. `framesOf` reads a whole
stream by it, without a parser's state, so that no cutting of the stream
is seen.

# The argument

One byte of the receive loop is one `push` of the format's reader
(`netRxByte_cases`), as long as no length was refused. After a refused
one the loop goes on over the rest of its segment, which is what makes
the segments' length matter: no more than `TCP_MSS` bytes follow, too few
to reach a length over 2044, and a length of 0 or one that wraps is
behind (`netRxSegment_overflow`). `RxOutcome` is then what a pbuf chain
leaves, and `Followed` what a run keeps for one connection.
-/
import PicoBridge.Lib.Framing
import PicoBridge.Noise.Agreement
import PicoBridge.Device.Effect
import PicoBridge.Link.Net

namespace PicoBridge

open Lib (Machine Format)

-- ============================================================== the format

theorem be32Of_lt (p : List UInt8) : be32Of p < 2 ^ 32 := by
  have h := leValue_lt [byteOf p 3, byteOf p 2, byteOf p 1, byteOf p 0]
  rw [show [byteOf p 3, byteOf p 2, byteOf p 1, byteOf p 0].length = 4 from rfl] at h
  exact Nat.lt_of_lt_of_le h (by norm_num)

/-- The length prefix is in the first four bytes. -/
theorem be32Of_take (p : List UInt8) : be32Of (p.take 4) = be32Of p := by
  simp [be32Of, byteOf]

/-- The length that a prefix announces, where it is accepted. -/
def netSize (h : List UInt8) : Option Nat :=
  if be32Of h = 0 ∨ be32Of h > netFrameMax - 4 then none else some (be32Of h)

theorem netSize_some {h : List UInt8} {n : Nat} (hsize : netSize h = some n) :
    be32Of h = n ∧ 0 < n ∧ n ≤ 2044 := by
  unfold netSize at hsize
  split at hsize
  next => cases hsize
  next hgood =>
    cases hsize
    unfold netFrameMax at hgood
    exact ⟨rfl, by omega, by omega⟩

theorem netSize_none {h : List UInt8} (hsize : netSize h = none) :
    be32Of h = 0 ∨ 2044 < be32Of h := by
  unfold netSize at hsize
  split at hsize
  next hbad => exact hbad
  next => cases hsize

/-- Four bytes of length, from 1 to 2044, and that many bytes. -/
def netFormat : Format UInt8 where
  header := 4
  size := netSize
  header_pos := by decide
  size_pos := fun _ _ h => (netSize_some h).2.1

@[simp] theorem netFormat_header : netFormat.header = 4 := rfl

@[simp] theorem netFormat_size : netFormat.size = netSize := by
  unfold netFormat
  rfl

/-- The frames of a byte stream. -/
def framesOf (stream : List UInt8) : List (List UInt8) := (netFormat.frames stream).1

/-- The first length of a stream that is refused ends it. -/
def EndsBad (stream : List UInt8) : Prop := (netFormat.frames stream).2 = none

theorem unfinished_length {rx : List UInt8} (h : netFormat.Unfinished rx) :
    rx.length < netFrameMax := by
  rcases h with hshort | ⟨n, hsize, hlen⟩
  · exact Nat.lt_trans hshort (by decide)
  · rw [netFormat_size] at hsize
    have hn := (netSize_some hsize).2.2
    have hlen : rx.length < 4 + n := hlen
    unfold netFrameMax
    omega

-- ============================================================= the session

theorem netSessionClose_some (pcb : Pcb) (n : NetEndpoint) :
    netSessionClose (some pcb) n
      = ({ n with
            netSessionPcb := if n.netSessionPcb = some pcb then none else n.netSessionPcb
            live := n.live.filter (· ≠ pcb)
            netRx := []
            netPendingTx := [] },
         n.calls pcb [.arg, .recv, .err, .sent, .abort]) := rfl

/-- What a close leaves of a session, closed already or not. -/
structure Closed (pcb : Pcb) (before after : NetEndpoint) : Prop where
  session : after.netSessionPcb = none
  live : after.live = before.live.filter (· ≠ pcb)
  netRx : after.netRx = []
  netPendingTx : after.netPendingTx = []

theorem netSessionClose_closed {pcb : Pcb} {n : NetEndpoint}
    (h : n.netSessionPcb = some pcb ∨ n.netSessionPcb = none) :
    Closed pcb n (netSessionClose (some pcb) n).1 := by
  refine ⟨?_, rfl, rfl, rfl⟩
  show (if n.netSessionPcb = some pcb then none else n.netSessionPcb) = none
  rcases h with h | h
  · rw [if_pos h]
  · rw [h, if_neg (by simp)]

/-- A second close finds the pcb gone. -/
theorem Closed.again {pcb : Pcb} {n m : NetEndpoint} (h : Closed pcb n m) :
    Closed pcb n (netSessionClose (some pcb) m).1 := by
  have hclose : Closed pcb m _ := netSessionClose_closed (.inr h.session)
  refine ⟨hclose.session, ?_, hclose.netRx, hclose.netPendingTx⟩
  rw [hclose.live, h.live, List.filter_filter]
  simp

/-- What the output side touches: nothing that a close or the parser
reads, the pending output apart. -/
theorem netSentCb_keeps (pcb : Pcb) (room : TxRoom) (n : NetEndpoint) :
    (netSentCb pcb room n).1
      = { n with netPendingTx := (netSentCb pcb room n).1.netPendingTx } := by
  unfold netSentCb
  dsimp only
  split
  · rfl
  · split
    · rfl
    · split
      · rfl
      · split <;> rfl

/-- Its events are calls on the pcb. -/
theorem netSentCb_calls (pcb : Pcb) (room : TxRoom) (n : NetEndpoint) :
    ∃ cs, (netSentCb pcb room n).2 = n.calls pcb cs := by
  unfold netSentCb
  dsimp only
  split
  · exact ⟨[], rfl⟩
  · split
    · exact ⟨[], rfl⟩
    · split
      · exact ⟨_, rfl⟩
      · split <;> exact ⟨_, rfl⟩

variable (lib : Crypto)

/-- A frame, of a session: no response, or one that finds output pending
and closes the session, or one that is sent. -/
theorem netProcessFrame_cases (pcb : Pcb) (env : FrameEnv) (room : TxRoom) (n : NetEndpoint) :
    let data := n.netRx.drop 4
    let c := commandProcessFrame lib n.device env data bridgeTransportResponseMax
    let m := { n with device := c.2, netRx := [] }
    let r := netProcessFrame lib pcb env room n
    (c.1 = none ∧ r = (m, [.frame pcb data])) ∨
    (c.1.isSome ∧ n.netPendingTx ≠ [] ∧ r.1 = (netSessionClose (some pcb) m).1 ∧
      r.2 = .frame pcb data :: .undrained pcb :: n.calls pcb [.arg, .recv, .err, .sent, .abort]) ∨
    (∃ resp, c.1 = some resp ∧ n.netPendingTx = [] ∧
      let q := netSentCb pcb room { m with netPendingTx := be32 resp.length ++ resp }
      r = (q.1, .frame pcb data :: q.2)) := by
  unfold netProcessFrame
  dsimp only
  cases hresp : (commandProcessFrame lib n.device env (n.netRx.drop 4)
    bridgeTransportResponseMax).1 with
  | none => exact .inl ⟨rfl, rfl⟩
  | some resp =>
      dsimp only
      by_cases hpending : n.netPendingTx = []
      · rw [if_neg (by rw [hpending]; decide)]
        exact .inr (.inr ⟨resp, rfl, hpending, rfl⟩)
      · rw [if_pos fun hlen => hpending (List.length_eq_zero_iff.mp hlen)]
        exact .inr (.inl ⟨rfl, hpending, rfl, rfl⟩)

-- ================================================================ one byte

/-- One byte of the loop is one `push` of the reader: it grows the frame,
completes a length that is refused, or completes the frame. -/
theorem netRxByte_cases (pcb : Pcb) (x : RxByte) {n : NetEndpoint}
    (hsession : n.netSessionPcb = some pcb) (hrx : netFormat.Unfinished n.netRx) :
    let rx := n.netRx ++ [x.byte]
    let stored := { n with netRx := rx }
    let push := netFormat.push (some n.netRx) x.byte
    let r := netRxByte lib pcb x n
    (push = (some rx, []) ∧ netFormat.Unfinished rx ∧
      r = (stored, [.store n.netRx.length], .more)) ∨
    (push = (none, []) ∧ rx.length = 4 ∧ netSize rx = none ∧
      r = (stored, [.store n.netRx.length], .overflow)) ∨
    (push = (some [], [rx.drop 4]) ∧
      let q := netProcessFrame lib pcb x.env x.room stored
      r = (q.1, .store n.netRx.length :: q.2,
        if q.1.netSessionPcb = none then .stop else .more)) := by
  unfold netRxByte
  dsimp only
  have hlength : (n.netRx ++ [x.byte]).length = n.netRx.length + 1 := by
    rw [List.length_append, List.length_singleton]
  by_cases hhead : n.netRx.length < 4
  · rw [if_pos hhead]
    by_cases hfour : (n.netRx ++ [x.byte]).length = 4
    · have htake : (n.netRx ++ [x.byte]).take netFormat.header = n.netRx ++ [x.byte] :=
        List.take_of_length_le (by rw [hfour]; exact Nat.le_refl 4)
      cases hsize : netSize (n.netRx ++ [x.byte]) with
      | none =>
          refine .inr (.inl ⟨?_, hfour, rfl, ?_⟩)
          · refine Format.push_refused (Nat.le_of_eq hfour.symm) ?_
            rw [htake, netFormat_size]
            exact hsize
          · rw [if_pos ⟨hfour, netSize_none hsize⟩]
      | some len =>
          obtain ⟨hvalue, hpos, hle⟩ := netSize_some hsize
          have hmore : netFormat.Unfinished (n.netRx ++ [x.byte]) := by
            refine .inr ⟨len, ?_, ?_⟩
            · rw [htake, netFormat_size]
              exact hsize
            · show _ < 4 + len
              omega
          refine .inl ⟨Format.push_unfinished hmore, hmore, ?_⟩
          rw [if_neg]
          rintro ⟨-, hzero | hbig⟩
          · omega
          · unfold netFrameMax at hbig
            omega
    · have hmore : netFormat.Unfinished (n.netRx ++ [x.byte]) := by
        refine .inl ?_
        show _ < 4
        omega
      refine .inl ⟨Format.push_unfinished hmore, hmore, ?_⟩
      rw [if_neg fun h => hfour h.1]
  · rw [if_neg hhead]
    rcases hrx with hshort | ⟨len, hsize, hlen⟩
    · exact absurd hshort hhead
    · have htake : (n.netRx ++ [x.byte]).take netFormat.header
          = n.netRx.take netFormat.header :=
        List.take_append_of_le_length (Nat.not_lt.mp hhead)
      have hsize' : netSize (n.netRx.take 4) = some len := by
        rw [netFormat_header, netFormat_size] at hsize
        exact hsize
      have hlen' : n.netRx.length < 4 + len := hlen
      obtain ⟨hvalue, hpos, hle⟩ := netSize_some hsize'
      have hflen : be32Of (n.netRx ++ [x.byte]) = len := by
        rw [← be32Of_take, ← hvalue]
        exact congrArg be32Of htake
      rw [hflen, Nat.mod_eq_of_lt (by omega)]
      by_cases hfull : (n.netRx ++ [x.byte]).length = 4 + len
      · rw [if_pos hfull]
        refine .inr (.inr ⟨?_, rfl⟩)
        refine Format.push_finished ?_ hfull
        rw [htake]
        exact hsize
      · have hmore : netFormat.Unfinished (n.netRx ++ [x.byte]) := by
          refine .inr ⟨len, ?_, ?_⟩
          · rw [htake]
            exact hsize
          · show _ < 4 + len
            omega
        rw [if_neg hfull, if_neg (by rw [hsession]; simp)]
        exact .inl ⟨Format.push_unfinished hmore, hmore, rfl⟩

-- ============================================================== the events

/-- The bytes that a connection's receive callback was handed. -/
def NetEvent.bytesFor (pcb : Pcb) : NetEvent → List UInt8
  | .received q bytes => if q = pcb then bytes else []
  | _ => []

/-- The frame that a connection handed on. -/
def NetEvent.frameFor (pcb : Pcb) : NetEvent → Option (List UInt8)
  | .frame q data => if q = pcb then some data else none
  | _ => none

/-- What a connection received. -/
def streamOf (pcb : Pcb) (es : List NetEvent) : List UInt8 := es.flatMap (NetEvent.bytesFor pcb)

/-- What `command_process_frame` was called on, for a connection. -/
def handed (pcb : Pcb) (es : List NetEvent) : List (List UInt8) :=
  es.filterMap (NetEvent.frameFor pcb)

@[simp] theorem streamOf_append (pcb : Pcb) (es fs : List NetEvent) :
    streamOf pcb (es ++ fs) = streamOf pcb es ++ streamOf pcb fs := List.flatMap_append

@[simp] theorem handed_append (pcb : Pcb) (es fs : List NetEvent) :
    handed pcb (es ++ fs) = handed pcb es ++ handed pcb fs := List.filterMap_append

/-- The events of a receive loop over one connection's bytes: stores
inside `net_rx`, and what concerns the connection. -/
def RxEvent (pcb : Pcb) : NetEvent → Prop
  | .store i => i < netFrameMax
  | .frame q _ => q = pcb
  | .undrained q => q = pcb
  | .call _ q _ => q = pcb
  | .received _ _ => False
  | .returned _ _ _ _ => False

theorem calls_rxEvent (n : NetEndpoint) (pcb : Pcb) (cs : List LwipCall) :
    ∀ e ∈ n.calls pcb cs, RxEvent pcb e := by
  intro e he
  obtain ⟨c, -, rfl⟩ := List.mem_map.mp he
  rfl

/-- An lwIP call or the return of a callback. -/
def NetEvent.Plain : NetEvent → Prop
  | .call _ _ _ => True
  | .returned _ _ _ _ => True
  | _ => False

theorem calls_plain (n : NetEndpoint) (pcb : Pcb) (cs : List LwipCall) :
    ∀ e ∈ n.calls pcb cs, e.Plain := by
  intro e he
  obtain ⟨c, -, rfl⟩ := List.mem_map.mp he
  trivial

/-- Such events bring no byte and hand nothing on. -/
theorem plain_unseen {es : List NetEvent} (h : ∀ e ∈ es, e.Plain) (q : Pcb) :
    streamOf q es = [] ∧ handed q es = [] ∧ .undrained q ∉ es := by
  refine ⟨List.flatMap_eq_nil_iff.mpr fun e he => ?_,
    List.filterMap_eq_nil_iff.mpr fun e he => ?_, fun hmem => h _ hmem⟩
  · cases e with
    | received _ _ => exact absurd (h _ he) id
    | _ => rfl
  · cases e with
    | frame _ _ => exact absurd (h _ he) id
    | _ => rfl

theorem handed_calls (n : NetEndpoint) (q pcb : Pcb) (cs : List LwipCall) :
    handed q (n.calls pcb cs) = [] := (plain_unseen (calls_plain n pcb cs) q).2.1

theorem undrained_calls (n : NetEndpoint) (q pcb : Pcb) (cs : List LwipCall) :
    .undrained q ∉ n.calls pcb cs := (plain_unseen (calls_plain n pcb cs) q).2.2

-- =========================================================== after a refusal

/-- A length that was refused is not reached by what is left of its
segment. -/
theorem netRxSegment_overflow (pcb : Pcb) (xs : List RxByte) : ∀ {n : NetEndpoint},
    n.netSessionPcb = some pcb → 4 ≤ n.netRx.length → netSize n.netRx = none →
    n.netRx.length + xs.length ≤ netFrameMax →
    ∃ is : List Nat, (∀ i ∈ is, i < netFrameMax) ∧
      netRxSegment lib pcb xs true n
        = ({ n with netRx := n.netRx ++ xs.map RxByte.byte }, is.map .store, true) := by
  induction xs with
  | nil =>
      intro n _ _ _ _
      refine ⟨[], by simp, ?_⟩
      rw [List.map_nil, List.append_nil]
      rfl
  | cons x xs ih =>
      intro n hsession hlong hbad hfits
      rw [List.length_cons] at hfits
      have hlength : (n.netRx ++ [x.byte]).length = n.netRx.length + 1 := by
        rw [List.length_append, List.length_singleton]
      have hhead : be32Of (n.netRx ++ [x.byte]) = be32Of n.netRx := by
        rw [← be32Of_take, List.take_append_of_le_length hlong, be32Of_take]
      have hpast : ¬(n.netRx ++ [x.byte]).length = (4 + be32Of (n.netRx ++ [x.byte])) % 2 ^ 32 := by
        have hlt := be32Of_lt n.netRx
        have hsize := netSize_none hbad
        unfold netFrameMax at hfits
        rw [hhead, hlength]
        omega
      have hbyte : netRxByte lib pcb x n
          = ({ n with netRx := n.netRx ++ [x.byte] }, [.store n.netRx.length], .more) := by
        unfold netRxByte
        dsimp only
        rw [if_neg (Nat.not_lt.mpr hlong), if_neg hpast, if_neg (by rw [hsession]; simp)]
      have hbad' : netSize (n.netRx ++ [x.byte]) = none := by
        unfold netSize at hbad ⊢
        rw [hhead]
        exact hbad
      obtain ⟨is, his, hrest⟩ := ih (n := { n with netRx := n.netRx ++ [x.byte] }) hsession
        (by show 4 ≤ (n.netRx ++ [x.byte]).length; omega) hbad'
        (by show (n.netRx ++ [x.byte]).length + xs.length ≤ netFrameMax; omega)
      refine ⟨n.netRx.length :: is, ?_, ?_⟩
      · intro i hi
        rcases List.mem_cons.mp hi with rfl | hi
        · unfold netFrameMax at hfits ⊢
          omega
        · exact his i hi
      · rw [netRxSegment, hbyte]
        dsimp only
        rw [hrest, List.map_cons, List.map_cons, List.append_assoc]
        rfl

-- ================================================================ a chain

/-- What bytes leave that a session receives: the session open between
two of them, open after a length that is refused, or closed after a
response that found output pending. -/
inductive RxOutcome (pcb : Pcb) (bytes : List UInt8) (n : NetEndpoint)
    (r : NetEndpoint × List NetEvent × Bool) : Prop
  | more (overflow : r.2.2 = false) (session : r.1.netSessionPcb = some pcb)
      (live : r.1.live = n.live) (unfinished : netFormat.Unfinished r.1.netRx)
      (read : netFormat.read (some n.netRx) bytes = (some r.1.netRx, handed pcb r.2.1))
      (drained : .undrained pcb ∉ r.2.1)
  | refused (overflow : r.2.2 = true) (session : r.1.netSessionPcb = some pcb)
      (live : r.1.live = n.live)
      (read : netFormat.read (some n.netRx) bytes = (none, handed pcb r.2.1))
      (drained : .undrained pcb ∉ r.2.1)
  | undrained (overflow : r.2.2 = true) (closed : Closed pcb n r.1)
      (read : handed pcb r.2.1 <+: (netFormat.read (some n.netRx) bytes).2)
      (event : .undrained pcb ∈ r.2.1)

namespace RxOutcome

variable {pcb : Pcb} {n m : NetEndpoint} {es : List NetEvent}
  {r : NetEndpoint × List NetEvent × Bool} {as bs : List UInt8}

/-- Bytes after bytes that leave the session open. -/
theorem after (hlive : m.live = n.live)
    (hread : netFormat.read (some n.netRx) as = (some m.netRx, handed pcb es))
    (hdrained : .undrained pcb ∉ es) (h : RxOutcome pcb bs m r) :
    RxOutcome pcb (as ++ bs) n (r.1, es ++ r.2.1, r.2.2) := by
  have happend := netFormat.read_append (some n.netRx) as bs
  rw [hread] at happend
  dsimp only at happend
  cases h with
  | more overflow session live unfinished read drained =>
      refine .more overflow session (live.trans hlive) unfinished ?_ ?_
      · rw [happend, read, handed_append]
      · exact fun hmem => (List.mem_append.mp hmem).elim hdrained drained
  | refused overflow session live read drained =>
      refine .refused overflow session (live.trans hlive) ?_ ?_
      · rw [happend, read, handed_append]
      · exact fun hmem => (List.mem_append.mp hmem).elim hdrained drained
  | undrained overflow closed read event =>
      refine .undrained overflow ⟨closed.session, ?_, closed.netRx, closed.netPendingTx⟩ ?_ ?_
      · rw [closed.live, hlive]
      · rw [happend, handed_append]
        exact (List.prefix_append_right_inj _).mpr read
      · exact List.mem_append.mpr (.inr event)

/-- Bytes that the loop no longer looks at. -/
theorem stops (hoverflow : r.2.2 = true) (h : RxOutcome pcb as n r) :
    RxOutcome pcb (as ++ bs) n r := by
  have happend := netFormat.read_append (some n.netRx) as bs
  cases h with
  | more overflow _ _ _ _ _ =>
      rw [hoverflow] at overflow
      cases overflow
  | refused overflow session live read drained =>
      refine .refused overflow session live ?_ drained
      rw [happend, read]
      dsimp only
      rw [Format.read_none, List.append_nil]
  | undrained overflow closed read event =>
      refine .undrained overflow closed ?_ event
      rw [happend]
      exact read.trans (List.prefix_append _ _)

end RxOutcome

/-- `TCP_MSS`. -/
def tcpMss : Nat := 1460

/-- A byte that completes a frame. -/
theorem netProcessFrame_outcome (pcb : Pcb) (env : FrameEnv) (room : TxRoom) {n : NetEndpoint}
    (hsession : n.netSessionPcb = some pcb) :
    let r := netProcessFrame lib pcb env room n
    handed pcb r.2 = [n.netRx.drop 4] ∧ (∀ e ∈ r.2, RxEvent pcb e) ∧
      ((r.1.netSessionPcb = some pcb ∧ r.1.live = n.live ∧ r.1.netRx = [] ∧
          .undrained pcb ∉ r.2) ∨
        (Closed pcb n r.1 ∧ .undrained pcb ∈ r.2)) := by
  have hframe : ∀ es : List NetEvent, handed pcb es = [] →
      handed pcb (.frame pcb (n.netRx.drop 4) :: es) = [n.netRx.drop 4] := by
    intro es hes
    show handed pcb ([.frame pcb (n.netRx.drop 4)] ++ es) = _
    rw [handed_append, hes]
    simp [handed, NetEvent.frameFor]
  dsimp only
  rcases netProcessFrame_cases lib pcb env room n with ⟨-, hr⟩ | ⟨-, -, hn, hes⟩ | ⟨resp, -, -, hr⟩
  · rw [hr]
    refine ⟨hframe [] rfl, ?_, .inl ⟨hsession, rfl, rfl, by simp⟩⟩
    intro e he
    rw [List.mem_singleton.mp he]
    rfl
  · have hclosed := @netSessionClose_closed pcb
      { n with
        device := (commandProcessFrame lib n.device env (n.netRx.drop 4)
          bridgeTransportResponseMax).2
        netRx := [] } (.inl hsession)
    rw [hes, hn]
    refine ⟨hframe _ (handed_calls n pcb pcb _), ?_,
      .inr ⟨⟨hclosed.session, hclosed.live, hclosed.netRx, hclosed.netPendingTx⟩, by simp⟩⟩
    intro e he
    rcases List.mem_cons.mp he with rfl | he
    · rfl
    · rcases List.mem_cons.mp he with rfl | he
      · rfl
      · exact calls_rxEvent n pcb _ e he
  · rw [hr]
    dsimp only
    obtain ⟨cs, hcs⟩ := netSentCb_calls pcb room
      { n with
        device := (commandProcessFrame lib n.device env (n.netRx.drop 4)
          bridgeTransportResponseMax).2
        netRx := []
        netPendingTx := be32 resp.length ++ resp }
    rw [hcs, netSentCb_keeps]
    refine ⟨hframe _ (handed_calls _ pcb pcb cs), ?_, .inl ⟨hsession, rfl, rfl, ?_⟩⟩
    · intro e he
      rcases List.mem_cons.mp he with rfl | he
      · rfl
      · exact calls_rxEvent _ pcb _ e he
    · intro hmem
      rcases List.mem_cons.mp hmem with hmem | hmem
      · cases hmem
      · exact undrained_calls _ pcb pcb cs hmem

/-- A segment, from between two bytes. -/
theorem netRxSegment_outcome (pcb : Pcb) (xs : List RxByte) : ∀ {n : NetEndpoint},
    n.netSessionPcb = some pcb → netFormat.Unfinished n.netRx → xs.length ≤ tcpMss →
    let r := netRxSegment lib pcb xs false n
    RxOutcome pcb (xs.map RxByte.byte) n r ∧ ∀ e ∈ r.2.1, RxEvent pcb e := by
  induction xs with
  | nil =>
      intro n hsession hrx _
      exact ⟨.more rfl hsession rfl hrx rfl (by simp [netRxSegment]), by simp [netRxSegment]⟩
  | cons x xs ih =>
      intro n hsession hrx hfits
      rw [List.length_cons] at hfits
      have hstore : RxEvent pcb (.store n.netRx.length) := unfinished_length hrx
      have hmap : (x :: xs).map RxByte.byte = [x.byte] ++ xs.map RxByte.byte := rfl
      rw [hmap]
      unfold netRxSegment
      rcases netRxByte_cases lib pcb x hsession hrx with
        ⟨hpush, hmore, hr⟩ | ⟨hpush, hfour, hbad, hr⟩ | ⟨hpush, hr⟩
      · rw [hr]
        dsimp only
        obtain ⟨hout, hev⟩ := ih (n := { n with netRx := n.netRx ++ [x.byte] }) hsession hmore
          (by omega)
        refine ⟨.after (m := { n with netRx := n.netRx ++ [x.byte] }) rfl ?_ (by simp) hout, ?_⟩
        · rw [Format.read_singleton, hpush]
          rfl
        · intro e he
          rcases List.mem_cons.mp he with rfl | he
          · exact hstore
          · exact hev e he
      · rw [hr]
        dsimp only
        obtain ⟨is, his, hrest⟩ := netRxSegment_overflow lib pcb xs
          (n := { n with netRx := n.netRx ++ [x.byte] }) hsession (Nat.le_of_eq hfour.symm) hbad
          (by
            show (n.netRx ++ [x.byte]).length + xs.length ≤ netFrameMax
            unfold tcpMss at hfits
            unfold netFrameMax
            omega)
        rw [hrest]
        dsimp only
        have hquiet : handed pcb (is.map NetEvent.store) = [] := by
          refine List.filterMap_eq_nil_iff.mpr fun e he => ?_
          obtain ⟨i, -, rfl⟩ := List.mem_map.mp he
          rfl
        refine ⟨.refused rfl hsession rfl ?_ ?_, ?_⟩
        · rw [Format.read_append, Format.read_singleton, hpush, handed_append, hquiet]
          dsimp only
          rw [Format.read_none]
          rfl
        · intro hmem
          rcases List.mem_cons.mp hmem with hmem | hmem
          · cases hmem
          · obtain ⟨i, -, hi⟩ := List.mem_map.mp hmem
            cases hi
        · intro e he
          rcases List.mem_cons.mp he with rfl | he
          · exact hstore
          · obtain ⟨i, hi, rfl⟩ := List.mem_map.mp he
            exact his i hi
      · rw [hr]
        dsimp only
        have hframe := netProcessFrame_outcome lib pcb x.env x.room
          (n := { n with netRx := n.netRx ++ [x.byte] }) hsession
        dsimp only at hframe
        obtain ⟨hhanded, hev, ⟨hopen, hlive, hempty, hdrained⟩ | ⟨hclosed, hevent⟩⟩ := hframe
        · rw [if_neg (by rw [hopen]; simp)]
          dsimp only
          obtain ⟨hout, hev'⟩ := ih hopen (by rw [hempty]; exact netFormat.unfinished_nil)
            (by omega)
          refine ⟨.after hlive ?_ ?_ hout, ?_⟩
          · rw [Format.read_singleton, hpush, hempty]
            exact congrArg (some [], ·) hhanded.symm
          · intro hmem
            rcases List.mem_cons.mp hmem with hmem | hmem
            · cases hmem
            · exact hdrained hmem
          · intro e he
            rcases List.mem_cons.mp he with rfl | he
            · exact hstore
            · exact (List.mem_append.mp he).elim (hev e) (hev' e)
        · rw [if_pos hclosed.session]
          dsimp only
          refine ⟨.undrained rfl ⟨hclosed.session, hclosed.live, hclosed.netRx,
            hclosed.netPendingTx⟩ ?_ (List.mem_cons_of_mem _ hevent), ?_⟩
          · rw [Format.read_append, Format.read_singleton, hpush]
            show handed pcb _ <+: _
            refine List.IsPrefix.trans ?_ (List.prefix_append _ _)
            exact ⟨[], (List.append_nil _).trans hhanded⟩
          · intro e he
            rcases List.mem_cons.mp he with rfl | he
            · exact hstore
            · exact hev e he

/-- A chain whose segments lwIP fits into its segment size. -/
theorem netRxChain_outcome (pcb : Pcb) (chain : PbufChain) : ∀ {n : NetEndpoint},
    n.netSessionPcb = some pcb → netFormat.Unfinished n.netRx →
    (∀ segment ∈ chain, segment.length ≤ tcpMss) →
    let r := netRxChain lib pcb chain n
    RxOutcome pcb chain.bytes n r ∧ ∀ e ∈ r.2.1, RxEvent pcb e := by
  induction chain with
  | nil =>
      intro n hsession hrx _
      exact ⟨.more rfl hsession rfl hrx rfl (by simp [netRxChain]), by simp [netRxChain]⟩
  | cons segment chain ih =>
      intro n hsession hrx hfits
      obtain ⟨hout, hev⟩ := netRxSegment_outcome lib pcb segment hsession hrx
        (hfits _ List.mem_cons_self)
      have hbytes : PbufChain.bytes (segment :: chain)
          = segment.map RxByte.byte ++ PbufChain.bytes chain := by
        unfold PbufChain.bytes
        rw [List.flatten_cons, List.map_append]
      rw [hbytes]
      unfold netRxChain
      dsimp only
      cases hoverflow : (netRxSegment lib pcb segment false n).2.2 with
      | true =>
          rw [if_pos rfl]
          exact ⟨hout.stops hoverflow, hev⟩
      | false =>
          rw [if_neg (by simp)]
          cases hout with
          | more _ session live unfinished read drained =>
              obtain ⟨hrest, hev'⟩ := ih session unfinished
                fun s hs => hfits s (List.mem_cons_of_mem _ hs)
              refine ⟨.after live read drained hrest, ?_⟩
              intro e he
              exact (List.mem_append.mp he).elim (hev e) (hev' e)
          | refused overflow _ _ _ _ =>
              rw [hoverflow] at overflow
              cases overflow
          | undrained overflow _ _ _ =>
              rw [hoverflow] at overflow
              cases overflow

-- ======================================================= the other inputs

/-- What holds between two inputs: the session's pcb is the one that is
live, nothing is pending without it, and the frame is unfinished. -/
structure NetSound (n : NetEndpoint) : Prop where
  live : n.live = n.netSessionPcb.toList
  idle : n.netSessionPcb = none → n.netPendingTx = []
  unfinished : netFormat.Unfinished n.netRx

theorem netSound_start (device : Device) (radioRecord : Bool) :
    NetSound (netEndpointStart radioRecord (netEndpointInit device)) := by
  cases radioRecord <;> exact ⟨rfl, fun _ => rfl, netFormat.unfinished_nil⟩

theorem Closed.sound {pcb : Pcb} {n m : NetEndpoint} (h : Closed pcb n m)
    (hlive : n.live = [pcb]) : NetSound m := by
  refine ⟨?_, fun _ => h.netPendingTx, ?_⟩
  · rw [h.live, hlive, h.session]
    simp
  · rw [h.netRx]
    exact netFormat.unfinished_nil

/-- A connection that is refused, aborted because there is a session, or
made the session. -/
theorem netAcceptCb_cases (pcb : Pcb) (errOk : Bool) (n : NetEndpoint) :
    netAcceptCb (some pcb) errOk n = (n, [], .val) ∨
    netAcceptCb (some pcb) errOk n
      = ({ n with live := n.live.filter (· ≠ pcb) }, n.calls pcb [.abort], .abrt) ∨
    (n.netSessionPcb = none ∧
      netAcceptCb (some pcb) errOk n
        = ({ n with netSessionPcb := some pcb, netRx := [], netPendingTx := [] },
           n.calls pcb [.arg, .recv, .err, .sent, .nagleDisable], .ok)) := by
  unfold netAcceptCb
  cases errOk with
  | false => exact .inl rfl
  | true =>
      dsimp only
      by_cases hbusy : n.netSessionPcb.isSome ∨ n.netPendingTx.length ≠ 0
      · rw [if_pos hbusy]
        exact .inr (.inl rfl)
      · rw [if_neg hbusy]
        refine .inr (.inr ⟨?_, rfl⟩)
        cases hs : n.netSessionPcb with
        | none => rfl
        | some q =>
            rw [hs] at hbusy
            exact absurd (.inl rfl) hbusy

theorem accept_keeps {n : NetEndpoint} (h : NetSound n) (pcb : Pcb) (errOk : Bool) :
    let r := netStep lib n (.accept (some pcb) errOk)
    NetSound r.1 ∧ (∀ e ∈ r.2, e.Plain) ∧
      (r.1.netSessionPcb = n.netSessionPcb ∧ r.1.netRx = n.netRx ∨
        n.netSessionPcb = none ∧ r.1.netSessionPcb = some pcb) := by
  unfold netStep
  dsimp only
  by_cases hlive : pcb ∈ n.live
  · rw [if_pos hlive]
    exact ⟨h, by simp, .inl ⟨rfl, rfl⟩⟩
  · rw [if_neg hlive]
    have hfresh : (pcb :: n.live).filter (· ≠ pcb) = n.live := by
      rw [List.filter_cons_of_neg (by simp)]
      refine List.filter_eq_self.mpr fun q hq => ?_
      rw [decide_eq_true_eq]
      rintro rfl
      exact hlive hq
    have hplain : ∀ (m : NetEndpoint) (cs : List LwipCall) (e' : NetEvent), e'.Plain →
        ∀ e ∈ m.calls pcb cs ++ [e'], e.Plain := by
      intro m cs e' he' e he
      rcases List.mem_append.mp he with he | he
      · exact calls_plain m pcb cs e he
      · rw [List.mem_singleton.mp he]
        exact he'
    rcases netAcceptCb_cases pcb errOk { n with live := pcb :: n.live } with
      hr | hr | ⟨hnone, hr⟩
    · rw [hr]
      dsimp only
      rw [if_pos rfl, hfresh]
      exact ⟨⟨h.live, h.idle, h.unfinished⟩, hplain n [] _ trivial, .inl ⟨rfl, rfl⟩⟩
    · rw [hr]
      dsimp only
      rw [if_neg (by decide), hfresh]
      exact ⟨⟨h.live, h.idle, h.unfinished⟩, hplain _ _ _ trivial, .inl ⟨rfl, rfl⟩⟩
    · rw [hr]
      dsimp only
      rw [if_neg (by decide)]
      have hnone : n.netSessionPcb = none := hnone
      have hempty : n.live = [] := by
        rw [h.live, hnone]
        rfl
      refine ⟨⟨?_, fun _ => rfl, netFormat.unfinished_nil⟩, hplain _ _ _ trivial,
        .inr ⟨hnone, rfl⟩⟩
      show pcb :: n.live = [pcb]
      rw [hempty]

/-- The session, its frame and its output as they were. -/
structure SameSession (n m : NetEndpoint) : Prop where
  session : m.netSessionPcb = n.netSessionPcb
  live : m.live = n.live
  netRx : m.netRx = n.netRx
  netPendingTx : m.netPendingTx = n.netPendingTx

theorem SameSession.sound {n m : NetEndpoint} (h : SameSession n m) (hn : NetSound n) :
    NetSound m := by
  refine ⟨?_, ?_, ?_⟩
  · rw [h.live, h.session]
    exact hn.live
  · rw [h.session, h.netPendingTx]
    exact hn.idle
  · rw [h.netRx]
    exact hn.unfinished

/-- A poll leaves the session, or closes it. -/
theorem netEndpointPoll_cases (env : NetPollEnv) (n : NetEndpoint) :
    let r := netEndpointPoll env n
    (r.2 = [] ∧ SameSession n r.1) ∨
      ∃ pcb, n.netSessionPcb = some pcb ∧ Closed pcb n r.1 ∧
        r.2 = n.calls pcb [.arg, .recv, .err, .sent, .abort] := by
  unfold netEndpointPoll
  dsimp only
  split
  · exact .inl ⟨rfl, rfl, rfl, rfl, rfl⟩
  · split
    · exact .inl ⟨rfl, rfl, rfl, rfl, rfl⟩
    · split
      · exact .inl ⟨rfl, rfl, rfl, rfl, rfl⟩
      · split
        · exact .inl ⟨rfl, rfl, rfl, rfl, rfl⟩
        · split
          · exact .inl ⟨rfl, rfl, rfl, rfl, rfl⟩
          · exact .inl ⟨rfl, rfl, rfl, rfl, rfl⟩
  · cases env.haveIp with
    | false =>
        rw [if_neg Bool.false_ne_true, if_neg fun h => Bool.false_ne_true h.1]
        split
        · exact .inl ⟨rfl, rfl, rfl, rfl, rfl⟩
        · exact .inl ⟨rfl, rfl, rfl, rfl, rfl⟩
    | true =>
        rw [if_pos rfl]
        split
        · exact .inl ⟨rfl, rfl, rfl, rfl, rfl⟩
        · split
          · exact .inl ⟨rfl, rfl, rfl, rfl, rfl⟩
          · exact .inl ⟨rfl, rfl, rfl, rfl, rfl⟩
  · split
    · exact .inl ⟨rfl, rfl, rfl, rfl, rfl⟩
    · cases hsession : n.netSessionPcb with
      | none => exact .inl ⟨rfl, rfl, rfl, rfl, rfl⟩
      | some pcb =>
          have hclosed := netSessionClose_closed (.inl hsession)
          exact .inr ⟨pcb, rfl, ⟨hclosed.session, hclosed.live, hclosed.netRx,
            hclosed.netPendingTx⟩, rfl⟩

theorem netSessionClose_device (pcb : Option Pcb) (n : NetEndpoint) :
    (netSessionClose pcb n).1.device = n.device := by
  cases pcb <;> rfl

theorem netEndpointPoll_device (env : NetPollEnv) (n : NetEndpoint) :
    (netEndpointPoll env n).1.device = n.device := by
  unfold netEndpointPoll netRetryLater
  cases n.netState with
  | noRecord => rfl
  | retryWait =>
      dsimp only
      split
      · rfl
      split
      · rfl
      split
      · rfl
      split <;> rfl
  | connecting =>
      dsimp only
      cases env.haveIp with
      | false =>
          rw [if_neg Bool.false_ne_true, if_neg fun h => Bool.false_ne_true h.1]
          split <;> rfl
      | true =>
          rw [if_pos rfl]
          split
          · rfl
          split <;> rfl
  | ready =>
      dsimp only
      split
      · rfl
      · exact netSessionClose_device n.netSessionPcb n

/-- What brings no bytes keeps the session and its frame, closes it, or
opens one where there is none. -/
theorem quiet_keeps {n : NetEndpoint} (h : NetSound n) {i : NetInput}
    (hi : ∀ pcb p errOk, i ≠ .recv pcb p errOk) :
    let r := netStep lib n i
    NetSound r.1 ∧ (∀ e ∈ r.2, e.Plain) ∧
      (r.1.netSessionPcb = n.netSessionPcb ∧ r.1.netRx = n.netRx ∨
        r.1.netSessionPcb = none ∨
        ∃ pcb errOk, i = .accept (some pcb) errOk ∧ n.netSessionPcb = none ∧
          r.1.netSessionPcb = some pcb) := by
  cases i with
  | recv pcb p errOk => exact absurd rfl (hi pcb p errOk)
  | accept newpcb errOk =>
      cases newpcb with
      | none =>
          have hr : netAcceptCb none errOk n = (n, [], .val) := by cases errOk <;> rfl
          unfold netStep
          dsimp only
          rw [hr]
          exact ⟨h, by simp, .inl ⟨rfl, rfl⟩⟩
      | some pcb =>
          obtain ⟨hsound, hplain, hkept | hopen⟩ := accept_keeps lib h pcb errOk
          · exact ⟨hsound, hplain, .inl hkept⟩
          · exact ⟨hsound, hplain, .inr (.inr ⟨pcb, errOk, rfl, hopen⟩)⟩
  | sent pcb room =>
      unfold netStep
      dsimp only
      by_cases hlive : pcb ∈ n.live
      · rw [if_neg (not_not_intro hlive)]
        obtain ⟨cs, hcs⟩ := netSentCb_calls pcb room n
        have hsome : n.netSessionPcb ≠ none := by
          intro hnone
          rw [h.live, hnone] at hlive
          cases hlive
        dsimp only
        rw [hcs, netSentCb_keeps]
        refine ⟨⟨h.live, fun hnone => absurd hnone hsome, h.unfinished⟩, ?_, .inl ⟨rfl, rfl⟩⟩
        intro e he
        rcases List.mem_append.mp he with he | he
        · exact calls_plain n pcb cs e he
        · rw [List.mem_singleton.mp he]
          trivial
      · rw [if_pos hlive]
        exact ⟨h, by simp, .inl ⟨rfl, rfl⟩⟩
  | err pcb =>
      unfold netStep
      dsimp only
      by_cases hlive : pcb ∈ n.live
      · rw [if_neg (not_not_intro hlive)]
        refine ⟨⟨?_, fun _ => rfl, netFormat.unfinished_nil⟩, by simp, .inr (.inl rfl)⟩
        show n.live.filter (· ≠ pcb) = []
        rw [h.live] at hlive ⊢
        rw [Option.mem_toList] at hlive
        rw [hlive]
        simp
      · rw [if_pos hlive]
        exact ⟨h, by simp, .inl ⟨rfl, rfl⟩⟩
  | poll env =>
      unfold netStep
      dsimp only
      rcases netEndpointPoll_cases env n with ⟨hes, hsame⟩ | ⟨pcb, hsession, hclosed, hes⟩
      · rw [hes]
        exact ⟨hsame.sound h, by simp, .inl ⟨hsame.session, hsame.netRx⟩⟩
      · rw [hes]
        refine ⟨hclosed.sound ?_, calls_plain n pcb _, .inr (.inl hclosed.session)⟩
        rw [h.live, hsession]
        rfl
  | elsewhere device => exact ⟨⟨h.live, h.idle, h.unfinished⟩, by simp [netStep], .inl ⟨rfl, rfl⟩⟩

-- ============================================================= the receiver

/-- The segments of what an input brings are at most a `TCP_MSS` long. -/
def NetInput.Fits : NetInput → Prop
  | .recv _ (some chain) _ => ∀ segment ∈ chain, segment.length ≤ tcpMss
  | _ => True

/-- What a receive callback leaves of the session whose it is. -/
inductive RecvOutcome (pcb : Pcb) (n : NetEndpoint) (r : NetEndpoint × List NetEvent) : Prop
  | more (session : r.1.netSessionPcb = some pcb)
      (read : netFormat.read (some n.netRx) (streamOf pcb r.2)
        = (some r.1.netRx, handed pcb r.2))
      (drained : .undrained pcb ∉ r.2)
  | closed (session : r.1.netSessionPcb = none)
      (handed : handed pcb r.2 <+: (netFormat.read (some n.netRx) (streamOf pcb r.2)).2)
      (all : .undrained pcb ∉ r.2 →
        PicoBridge.handed pcb r.2 = (netFormat.read (some n.netRx) (streamOf pcb r.2)).2)

/-- An event of the receive callback. -/
def RecvEvent (pcb : Pcb) (e : NetEvent) : Prop :=
  e.Plain ∨ RxEvent pcb e ∨ ∃ bytes, e = .received pcb bytes

theorem streamOf_rx {pcb : Pcb} {es : List NetEvent} (h : ∀ e ∈ es, RxEvent pcb e) (q : Pcb) :
    streamOf q es = [] := by
  refine List.flatMap_eq_nil_iff.mpr fun e he => ?_
  cases e with
  | received _ _ => exact absurd (h _ he) id
  | _ => rfl

/-- What is seen of a loop, with the bytes it was given in front and the
calls after it behind. -/
theorem received_events {pcb : Pcb} (bytes : List UInt8) {es tail : List NetEvent}
    (hes : ∀ e ∈ es, RxEvent pcb e) (htail : ∀ e ∈ tail, e.Plain) :
    let all := .received pcb bytes :: es ++ tail
    (∀ e ∈ all, RecvEvent pcb e) ∧ streamOf pcb all = bytes ∧ handed pcb all = handed pcb es ∧
      (.undrained pcb ∈ all ↔ .undrained pcb ∈ es) := by
  obtain ⟨hstream, hhanded, hundrained⟩ := plain_unseen htail pcb
  refine ⟨?_, ?_, ?_, ?_⟩
  · intro e he
    rcases List.mem_append.mp he with he | he
    · rcases List.mem_cons.mp he with rfl | he
      · exact .inr (.inr ⟨bytes, rfl⟩)
      · exact .inr (.inl (hes e he))
    · exact .inl (htail e he)
  · rw [streamOf_append, hstream, List.append_nil]
    show (NetEvent.received pcb bytes).bytesFor pcb ++ streamOf pcb es = bytes
    rw [streamOf_rx hes, List.append_nil]
    exact if_pos rfl
  · rw [handed_append, hhanded, List.append_nil]
    rfl
  · rw [List.mem_append, List.mem_cons]
    constructor
    · rintro ((h | h) | h)
      · cases h
      · exact h
      · exact absurd h hundrained
    · exact fun h => .inl (.inr h)

theorem netRecvCb_outcome {n : NetEndpoint} (h : NetSound n) {pcb : Pcb} {p : Option PbufChain}
    {errOk : Bool} (hsession : n.netSessionPcb = some pcb)
    (hfits : (NetInput.recv pcb p errOk).Fits) :
    let r := netRecvCb lib pcb p errOk n
    NetSound r.1 ∧ (∀ e ∈ r.2, RecvEvent pcb e) ∧ RecvOutcome pcb n r := by
  have hlive : n.live = [pcb] := by
    rw [h.live, hsession]
    rfl
  have hend : netRecvCb lib pcb p errOk n = netSessionClose (some pcb) n →
      NetSound (netRecvCb lib pcb p errOk n).1 ∧
        (∀ e ∈ (netRecvCb lib pcb p errOk n).2, RecvEvent pcb e) ∧
        RecvOutcome pcb n (netRecvCb lib pcb p errOk n) := by
    intro hr
    rw [hr]
    have hclosed := netSessionClose_closed (.inl hsession)
    have hnothing := handed_calls n pcb pcb [.arg, .recv, .err, .sent, .abort]
    refine ⟨hclosed.sound hlive, fun e he => .inl (calls_plain n pcb _ e he),
      .closed hclosed.session ?_ fun _ => ?_⟩
    · rw [netSessionClose_some, hnothing]
      exact List.nil_prefix
    · rw [netSessionClose_some]
      dsimp only
      rw [hnothing, streamOf_rx (calls_rxEvent n pcb _)]
      rfl
  unfold netRecvCb at hend ⊢
  rw [if_neg (not_not_intro hsession)] at hend ⊢
  cases errOk with
  | false => exact hend rfl
  | true =>
      cases p with
      | none => exact hend rfl
      | some chain =>
          clear hend
          dsimp only
          obtain ⟨hout, hev⟩ := netRxChain_outcome lib pcb chain hsession h.unfinished hfits
          generalize netRxChain lib pcb chain n = r at hout hev ⊢
          rw [List.append_assoc]
          have htail : ∀ e ∈ r.1.calls pcb [.recved (chain.bytes.length % 65536)] ++
              (if r.2.2 then netSessionClose (some pcb) r.1 else (r.1, [])).2, e.Plain := by
            intro e he
            rcases List.mem_append.mp he with he | he
            · exact calls_plain r.1 pcb _ e he
            · cases hoverflow : r.2.2 with
              | false =>
                  rw [hoverflow, if_neg Bool.false_ne_true] at he
                  cases he
              | true =>
                  rw [hoverflow, if_pos rfl] at he
                  exact calls_plain r.1 pcb _ e he
          obtain ⟨hevents, hstream, hhanded, hundrained⟩ := received_events chain.bytes hev htail
          cases hout with
          | more overflow session live unfinished read drained =>
              rw [overflow, if_neg Bool.false_ne_true] at hevents hstream hhanded hundrained ⊢
              refine ⟨⟨?_, ?_, unfinished⟩, hevents, .more session ?_ ?_⟩
              · rw [live, session, hlive]
                rfl
              · intro hnone
                rw [session] at hnone
                cases hnone
              · rw [hstream, hhanded]
                exact read
              · exact fun hmem => drained (hundrained.mp hmem)
          | refused overflow session live read drained =>
              rw [overflow, if_pos rfl] at hevents hstream hhanded hundrained ⊢
              have hclosed := netSessionClose_closed (.inl session)
              refine ⟨hclosed.sound (live.trans hlive), hevents, .closed hclosed.session ?_ ?_⟩
              · rw [hstream, hhanded, read]
              · intro _
                rw [hstream, hhanded, read]
          | undrained overflow closed read event =>
              rw [overflow, if_pos rfl] at hevents hstream hhanded hundrained ⊢
              refine ⟨closed.again.sound hlive, hevents, .closed closed.again.session ?_ ?_⟩
              · rw [hstream, hhanded]
                exact read
              · exact fun hno => absurd (hundrained.mpr event) hno

-- ================================================================= the runs

/-- A callback's step, where it happens: its pcb is the session's. -/
theorem recv_step {n : NetEndpoint} (h : NetSound n) (pcb : Pcb) (p : Option PbufChain)
    (errOk : Bool) :
    netStep lib n (.recv pcb p errOk) = (n, []) ∨
      (n.netSessionPcb = some pcb ∧
        let r := netRecvCb lib pcb p errOk n
        netStep lib n (.recv pcb p errOk) = (r.1, r.2 ++ [returnedFrom .recv pcb n r.1 .ok])) := by
  unfold netStep
  dsimp only
  by_cases hlive : pcb ∈ n.live
  · rw [if_neg (not_not_intro hlive)]
    rw [h.live, Option.mem_toList] at hlive
    exact .inr ⟨hlive, rfl⟩
  · rw [if_pos hlive]
    exact .inl rfl

theorem netSound_step {n : NetEndpoint} (h : NetSound n) {i : NetInput} (hfits : i.Fits) :
    let r := netStep lib n i
    NetSound r.1 ∧ ∀ k, .store k ∈ r.2 → k < netFrameMax := by
  by_cases hrecv : ∃ pcb p errOk, i = .recv pcb p errOk
  · obtain ⟨pcb, p, errOk, rfl⟩ := hrecv
    rcases recv_step lib h pcb p errOk with hr | ⟨hsession, hr⟩
    · rw [hr]
      exact ⟨h, by simp⟩
    · rw [hr]
      obtain ⟨hsound, hevents, -⟩ := netRecvCb_outcome lib h hsession hfits
      refine ⟨hsound, fun k hk => ?_⟩
      rcases List.mem_append.mp hk with hk | hk
      · rcases hevents _ hk with hplain | hrx | ⟨_, hreceived⟩
        · exact absurd hplain id
        · exact hrx
        · cases hreceived
      · exact absurd (List.mem_singleton.mp hk) (by simp [returnedFrom])
  · obtain ⟨hsound, hplain, -⟩ := quiet_keeps lib h
      (fun pcb p errOk hi => hrecv ⟨pcb, p, errOk, hi⟩)
    exact ⟨hsound, fun k hk => absurd (hplain _ hk) id⟩

/-- Where the parser stands on a connection: it is the session and what is
in `net_rx` is the unfinished rest of its stream, or it is ended. -/
inductive Parsed (pcb : Pcb) (n : NetEndpoint) (es : List NetEvent) : Prop
  | reading (session : n.netSessionPcb = some pcb)
      (read : netFormat.read (some []) (streamOf pcb es) = (some n.netRx, handed pcb es))
      (drained : .undrained pcb ∉ es)
  | ended (session : n.netSessionPcb ≠ some pcb)
      (frames : handed pcb es <+: framesOf (streamOf pcb es))
      (all : .undrained pcb ∉ es → handed pcb es = framesOf (streamOf pcb es))

theorem framesOf_read (stream : List UInt8) :
    framesOf stream = (netFormat.read (some []) stream).2 := by
  rw [Format.read_eq_frames]
  rfl

/-- Events that are not of the connection. -/
theorem Parsed.unseen {pcb : Pcb} {n m : NetEndpoint} {es fs : List NetEvent}
    (h : Parsed pcb n es) (hstream : streamOf pcb fs = []) (hhanded : handed pcb fs = [])
    (hdrained : .undrained pcb ∉ fs)
    (hsession : m.netSessionPcb = n.netSessionPcb ∧ m.netRx = n.netRx ∨
      m.netSessionPcb ≠ some pcb) : Parsed pcb m (es ++ fs) := by
  have hall : .undrained pcb ∉ es ++ fs ↔ .undrained pcb ∉ es := by
    rw [List.mem_append]
    exact not_congr (or_iff_left hdrained)
  have hover : handed pcb (es ++ fs) = handed pcb es ∧
      streamOf pcb (es ++ fs) = streamOf pcb es := by
    rw [handed_append, hhanded, List.append_nil, streamOf_append, hstream, List.append_nil]
    exact ⟨rfl, rfl⟩
  cases h with
  | ended session frames all =>
      have hne : m.netSessionPcb ≠ some pcb := by
        rcases hsession with ⟨hsame, -⟩ | hne
        · rwa [hsame]
        · exact hne
      refine .ended hne ?_ ?_
      · rwa [hover.1, hover.2]
      · rwa [hall, hover.1, hover.2]
  | reading session read drained =>
      rcases hsession with ⟨hsame, hrx⟩ | hne
      · refine .reading (hsame.trans session) ?_ (hall.mpr drained)
        rw [hover.1, hover.2, hrx]
        exact read
      · have hframes : handed pcb (es ++ fs) = framesOf (streamOf pcb (es ++ fs)) := by
          rw [hover.1, hover.2, framesOf_read, read]
        exact .ended hne (hframes ▸ List.prefix_refl _) fun _ => hframes

/-- Its own receive callback. -/
theorem Parsed.received {pcb : Pcb} {n : NetEndpoint} {es : List NetEvent}
    {r : NetEndpoint × List NetEvent} (h : Parsed pcb n es)
    (hsession : n.netSessionPcb = some pcb) (hout : RecvOutcome pcb n r) :
    Parsed pcb r.1 (es ++ r.2) := by
  cases h with
  | ended session _ _ => exact absurd hsession session
  | reading _ read drained =>
      have happend := netFormat.read_append (some []) (streamOf pcb es) (streamOf pcb r.2)
      rw [read] at happend
      dsimp only at happend
      cases hout with
      | more session read' drained' =>
          refine .reading session ?_ ?_
          · rw [streamOf_append, handed_append, happend, read']
          · exact fun hmem => (List.mem_append.mp hmem).elim drained drained'
      | closed session frames all =>
          refine .ended (by rw [session]; simp) ?_ fun hno => ?_
          · rw [framesOf_read, streamOf_append, handed_append, happend]
            exact (List.prefix_append_right_inj _).mpr frames
          · rw [framesOf_read, streamOf_append, handed_append, happend]
            rw [all fun hmem => hno (List.mem_append.mpr (.inr hmem))]

/-- The receive callback of another connection. -/
theorem recvEvent_unseen {q pcb : Pcb} (hne : q ≠ pcb) {es : List NetEvent}
    (h : ∀ e ∈ es, RecvEvent q e) :
    streamOf pcb es = [] ∧ handed pcb es = [] ∧ .undrained pcb ∉ es := by
  refine ⟨List.flatMap_eq_nil_iff.mpr fun e he => ?_,
    List.filterMap_eq_nil_iff.mpr fun e he => ?_, fun hmem => ?_⟩
  · cases e with
    | received r bytes =>
        rcases h _ he with hplain | hrx | ⟨_, hreceived⟩
        · exact absurd hplain id
        · exact absurd hrx id
        · cases hreceived
          exact if_neg hne
    | _ => rfl
  · cases e with
    | frame r data =>
        rcases h _ he with hplain | hrx | ⟨_, hreceived⟩
        · exact absurd hplain id
        · exact if_neg fun hr => hne (hrx.symm.trans hr)
        · cases hreceived
    | _ => rfl
  · rcases h _ hmem with hplain | hrx | ⟨_, hreceived⟩
    · exact hplain
    · exact hne hrx.symm
    · cases hreceived

theorem parsed_step {pcb : Pcb} {n : NetEndpoint} {es : List NetEvent} (hsound : NetSound n)
    (h : Parsed pcb n es) {i : NetInput} (hfits : i.Fits)
    (honce : ∀ errOk, i ≠ .accept (some pcb) errOk) :
    Parsed pcb (netStep lib n i).1 (es ++ (netStep lib n i).2) := by
  by_cases hrecv : ∃ q p errOk, i = .recv q p errOk
  · obtain ⟨q, p, errOk, rfl⟩ := hrecv
    rcases recv_step lib hsound q p errOk with hr | ⟨hsession, hr⟩
    · rw [hr, List.append_nil]
      exact h
    · rw [hr]
      obtain ⟨-, hevents, hout⟩ := netRecvCb_outcome lib hsound hsession hfits
      generalize netRecvCb lib q p errOk n = r at hevents hout ⊢
      dsimp only
      have hreturned : ∀ e ∈ [returnedFrom .recv q n r.1 .ok], e.Plain := by
        intro e he
        rw [List.mem_singleton.mp he]
        trivial
      obtain ⟨hstream, hhanded, hdrained⟩ := plain_unseen hreturned pcb
      have hbefore : Parsed pcb r.1 (es ++ r.2) := by
        by_cases hq : q = pcb
        · subst hq
          exact h.received hsession hout
        · obtain ⟨hstream, hhanded, hdrained⟩ := recvEvent_unseen hq hevents
          refine h.unseen hstream hhanded hdrained (.inr ?_)
          cases hout with
          | more session _ _ =>
              rw [session]
              exact fun heq => hq (Option.some.inj heq)
          | closed session _ _ =>
              rw [session]
              simp
      rw [← List.append_assoc]
      exact hbefore.unseen hstream hhanded hdrained (.inl ⟨rfl, rfl⟩)
  · obtain ⟨-, hplain, hkept⟩ := quiet_keeps lib hsound
      (fun q p errOk hi => hrecv ⟨q, p, errOk, hi⟩)
    obtain ⟨hstream, hhanded, hdrained⟩ := plain_unseen hplain pcb
    refine h.unseen hstream hhanded hdrained ?_
    rcases hkept with hsame | hnone | ⟨q, errOk, rfl, -, hopen⟩
    · exact .inl hsame
    · refine .inr ?_
      rw [hnone]
      simp
    · refine .inr ?_
      rw [hopen]
      rintro heq
      cases heq
      exact honce errOk rfl

/-- A connection, where there is none, is the session. -/
theorem accept_idle {n : NetEndpoint} (h : NetSound n) (hnone : n.netSessionPcb = none)
    (pcb : Pcb) :
    (netStep lib n (.accept (some pcb) true)).1
      = { n with netSessionPcb := some pcb, netRx := [], netPendingTx := [], live := [pcb] } := by
  have hempty : n.live = [] := by
    rw [h.live, hnone]
    rfl
  have haccept : netAcceptCb (some pcb) true { n with live := [pcb] }
      = ({ n with netSessionPcb := some pcb, netRx := [], netPendingTx := [], live := [pcb] },
         { n with live := [pcb] }.calls pcb [.arg, .recv, .err, .sent, .nagleDisable], .ok) := by
    have hidle := h.idle hnone
    unfold netAcceptCb
    dsimp only
    rw [if_neg (by rw [hnone, hidle]; simp)]
    rfl
  unfold netStep
  dsimp only
  rw [hempty, if_neg (by simp), haccept]
  rfl

theorem accept_parsed {n : NetEndpoint} (h : NetSound n) (hnone : n.netSessionPcb = none)
    (pcb : Pcb) : Parsed pcb (netStep lib n (.accept (some pcb) true)).1 [] := by
  rw [accept_idle lib h hnone]
  exact .reading rfl rfl (by simp)

/-- The states of a run from the boot. -/
theorem netSound_run (device : Device) (radioRecord : Bool) {is : List NetInput}
    (hfits : ∀ i ∈ is, i.Fits) :
    let boot := netEndpointStart radioRecord (netEndpointInit device)
    NetSound ((netMachine lib).final boot is) ∧
      ∀ k, .store k ∈ (netMachine lib).trace boot is → k < netFrameMax := by
  refine (netMachine lib).run_inv (G := fun _ i => i.Fits)
    (P := fun n es => NetSound n ∧ ∀ k, .store k ∈ es → k < netFrameMax) ?_ is _ []
    ⟨netSound_start device radioRecord, by simp⟩
    ((netMachine lib).stepsMeet_of_mem (fun i hi _ => hfits i hi) _)
  intro n es i h hi
  obtain ⟨hsound, hstores⟩ := netSound_step lib h.1 hi
  exact ⟨hsound, fun k hk => (List.mem_append.mp hk).elim (h.2 k) (hstores k)⟩

/-- A received byte at 1000 ms, with an empty send buffer. -/
def benchByte (byte : UInt8) : RxByte := ⟨byte, envAt 1000, ⟨4096, true⟩⟩

/-- A frame of one byte, cut inside its length, and the next one's first
byte. -/
def cutFrame : List NetInput :=
  [.recv 7 (some [[benchByte 0], [benchByte 0, benchByte 0]]) true,
    .recv 7 (some [[benchByte 1, benchByte 9], [benchByte 0]]) true]

end PicoBridge
