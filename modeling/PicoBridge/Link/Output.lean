/-
The output side of the TCP endpoint, over every run: what is written on a
connection is a prefix of its responses, and nothing of it is left for
the next one.

# The responses of a connection

`reportsOn` lists the calls of `command_process_frame` that a
connection's frames are, each with its response. It follows the device,
not the output: `net_pending_tx` and the send buffer do not occur in it.

# The argument

Between two bytes of an open session, what was written and what is
pending come to the responses so far (`Carried.going`). A close loses what
is pending, so what was written is a prefix (`Carried.closed`). A loop, a
chain and a run are such steps one after the other.
-/
import PicoBridge.Device.Session
import PicoBridge.Link.Lifetime
import PicoBridge.Link.Transports

namespace PicoBridge

open Lib (Machine)

-- ============================================================= what is seen

/-- The bytes of an event that were given to `tcp_write` on a connection. -/
def NetEvent.writtenTo (pcb : Pcb) : NetEvent → List UInt8
  | .call (.write bytes) q _ => if q = pcb then bytes else []
  | _ => []

/-- The bytes given to `tcp_write` on a connection. -/
def writtenOn (pcb : Pcb) (es : List NetEvent) : List UInt8 := es.flatMap (NetEvent.writtenTo pcb)

/-- Responses behind their big-endian lengths of four bytes. -/
def framed (responses : List (List UInt8)) : List UInt8 :=
  responses.flatMap fun resp => be32 resp.length ++ resp

@[simp] theorem writtenOn_append (pcb : Pcb) (es fs : List NetEvent) :
    writtenOn pcb (es ++ fs) = writtenOn pcb es ++ writtenOn pcb fs := List.flatMap_append

theorem framed_append (rs ss : List (List UInt8)) : framed (rs ++ ss) = framed rs ++ framed ss :=
  List.flatMap_append

variable (lib : Crypto)

/-- The calls that a device is asked for, one after the other. -/
def reports (d : Device) : List Call → List CallReport
  | [] => []
  | c :: cs =>
      let r := commandProcessFrame lib d c.env c.data bridgeTransportResponseMax
      ⟨d, c, r.1, r.2⟩ :: reports r.2 cs

/-- The calls that an input makes of a connection's frames. -/
def reportsTo (pcb : Pcb) (n : NetEndpoint) (i : NetInput) : List CallReport :=
  match i with
  | .recv q _ _ => if q = pcb then reports lib n.device (netCalls lib i n) else []
  | _ => []

/-- The calls that a run makes of a connection's frames. -/
def reportsOn (pcb : Pcb) : NetEndpoint → List NetInput → List CallReport
  | _, [] => []
  | n, i :: is => reportsTo lib pcb n i ++ reportsOn pcb (netStep lib n i).1 is

/-- The responses, of the calls that have one. -/
def responsesOf (rs : List CallReport) : List (List UInt8) := rs.filterMap CallReport.response

theorem responsesOf_append (rs ss : List CallReport) :
    responsesOf (rs ++ ss) = responsesOf rs ++ responsesOf ss := List.filterMap_append

/-- Calls after calls go on from the device that those leave. -/
theorem reports_append {d d' : Device} {fs : List (List UInt8)} {cs : List Call}
    (h : Makes lib d fs d' cs) (cs' : List Call) :
    reports lib d (cs ++ cs') = reports lib d cs ++ reports lib d' cs' := by
  have hfinal := h.device []
  clear h
  generalize ([] : List Spent) = spent at hfinal
  induction cs generalizing d spent with
  | nil =>
      have hfinal : d = d' := hfinal
      rw [hfinal]
      rfl
  | cons c cs ih => exact congrArg (_ :: ·) (ih _ hfinal)

theorem reports_data (cs : List Call) : ∀ d : Device,
    (reports lib d cs).map (fun r => r.call.data) = cs.map Call.data := by
  induction cs with
  | nil => exact fun _ => rfl
  | cons c cs ih => exact fun _ => congrArg (_ :: ·) (ih _)

-- ============================================================ one connection

/-- An event that is of a connection, or of none. -/
def NetEvent.Of (pcb : Pcb) : NetEvent → Prop
  | .received q _ => q = pcb
  | .frame q _ => q = pcb
  | .undrained q => q = pcb
  | .call _ q _ => q = pcb
  | .returned _ q _ _ => q = pcb
  | .store _ => True

theorem of_calls (n : NetEndpoint) (pcb : Pcb) (cs : List LwipCall) :
    ∀ e ∈ n.calls pcb cs, e.Of pcb := by
  intro e he
  obtain ⟨c, -, rfl⟩ := List.mem_map.mp he
  rfl

theorem of_append {pcb : Pcb} {es fs : List NetEvent} (hes : ∀ e ∈ es, e.Of pcb)
    (hfs : ∀ e ∈ fs, e.Of pcb) : ∀ e ∈ es ++ fs, e.Of pcb :=
  fun e he => (List.mem_append.mp he).elim (hes e) (hfs e)

theorem of_cons {pcb : Pcb} {e : NetEvent} {es : List NetEvent} (he : e.Of pcb)
    (hes : ∀ e ∈ es, e.Of pcb) : ∀ e' ∈ e :: es, e'.Of pcb := by
  intro e' he'
  rcases List.mem_cons.mp he' with rfl | he'
  · exact he
  · exact hes e' he'

/-- The events of one connection hand no frame of another one on, and
write nothing on it. -/
theorem of_apart {q pcb : Pcb} (hne : q ≠ pcb) {es : List NetEvent} (h : ∀ e ∈ es, e.Of q) :
    writtenOn pcb es = [] ∧ handed pcb es = [] := by
  refine ⟨List.flatMap_eq_nil_iff.mpr fun e he => ?_,
    List.filterMap_eq_nil_iff.mpr fun e he => ?_⟩
  · have hq := h e he
    cases e with
    | call c r live =>
        cases c with
        | write bytes =>
            have hq : r = q := hq
            exact if_neg fun heq => hne (hq.symm.trans heq)
        | _ => rfl
    | _ => rfl
  · have hq := h e he
    cases e with
    | frame r data =>
        have hq : r = q := hq
        exact if_neg fun heq => hne (hq.symm.trans heq)
    | _ => rfl

/-- All frames that they hand on are the connection's. -/
theorem of_handed {pcb : Pcb} {es : List NetEvent} (h : ∀ e ∈ es, e.Of pcb) :
    handed pcb es = framesIn es := by
  refine List.filterMap_congr fun e he => ?_
  have hq := h e he
  cases e with
  | frame r data => exact if_pos hq
  | _ => rfl

theorem writtenOn_calls {n : NetEndpoint} {q : Pcb} {cs : List LwipCall}
    (h : ∀ bytes, .write bytes ∉ cs) (pcb : Pcb) : writtenOn pcb (n.calls q cs) = [] := by
  refine List.flatMap_eq_nil_iff.mpr fun e he => ?_
  obtain ⟨c, hc, rfl⟩ := List.mem_map.mp he
  cases c with
  | write bytes => exact absurd hc (h bytes)
  | _ => rfl

theorem netSessionClose_written (pcb q : Pcb) (n : NetEndpoint) :
    writtenOn q (netSessionClose (some pcb) n).2 = [] :=
  writtenOn_calls (n := n) (q := pcb) (by simp) q

theorem netSentCb_of (pcb : Pcb) (room : TxRoom) (n : NetEndpoint) :
    ∀ e ∈ (netSentCb pcb room n).2, e.Of pcb := by
  obtain ⟨cs, hcs⟩ := netSentCb_calls pcb room n
  rw [hcs]
  exact of_calls n pcb cs

/-- What `net_sent_cb` writes and what it leaves come to what was pending. -/
theorem netSentCb_written (pcb : Pcb) (room : TxRoom) (n : NetEndpoint) :
    writtenOn pcb (netSentCb pcb room n).2 ++ (netSentCb pcb room n).1.netPendingTx
      = n.netPendingTx := by
  have hsent : writtenOn pcb (netSentCb pcb room n).2 = sentIn (netSentCb pcb room n).2 := by
    refine List.flatMap_congr fun e he => ?_
    have hq := netSentCb_of pcb room n e he
    cases e with
    | call c r live =>
        cases c with
        | write bytes => exact if_pos hq
        | _ => rfl
    | _ => rfl
  rw [hsent]
  exact netSentCb_sent pcb room n

-- ============================================================ an open session

/-- What bytes of an open session leave: it is open, and what was written
and what is pending come to what was pending and the responses; or it is
closed, and what was written is a prefix of these. -/
inductive Carried (pcb : Pcb) (n m : NetEndpoint) (bytes : List UInt8) (rs : List CallReport) :
    Prop
  | going (kept : Going pcb n m)
      (output : bytes ++ m.netPendingTx = n.netPendingTx ++ framed (responsesOf rs))
  | closed (closed : Closed pcb n m)
      (output : bytes <+: n.netPendingTx ++ framed (responsesOf rs))

namespace Carried

variable {pcb : Pcb} {n m k : NetEndpoint} {bytes bytes' : List UInt8} {rs rs' : List CallReport}

/-- Nothing written, and no frame. -/
theorem still (h : Going pcb n m) (hpending : m.netPendingTx = n.netPendingTx) :
    Carried pcb n m [] [] := by
  refine .going h ?_
  rw [hpending]
  exact (List.append_nil _).symm

theorem kept (h : Carried pcb n m bytes rs) : Kept pcb n m := by
  cases h with
  | going hgoing _ => exact .inl hgoing
  | closed hclosed _ => exact .inr hclosed

/-- Bytes after bytes that leave the session open. -/
theorem after (h : Carried pcb n m bytes rs) (hopen : m.netSessionPcb = some pcb)
    (h' : Carried pcb m k bytes' rs') : Carried pcb n k (bytes ++ bytes') (rs ++ rs') := by
  cases h with
  | closed hclosed _ =>
      rw [hclosed.session] at hopen
      cases hopen
  | going hgoing houtput =>
      have hmiddle : bytes ++ (m.netPendingTx ++ framed (responsesOf rs'))
          = n.netPendingTx ++ framed (responsesOf (rs ++ rs')) := by
        rw [← List.append_assoc, houtput, List.append_assoc, responsesOf_append, framed_append]
      cases h' with
      | going hgoing' houtput' =>
          refine .going ⟨hgoing'.session, hgoing'.live.trans hgoing.live⟩ ?_
          rw [← hmiddle, ← houtput', List.append_assoc]
      | closed hclosed houtput' =>
          refine .closed ⟨hclosed.session, ?_, hclosed.netRx, hclosed.netPendingTx⟩ ?_
          · rw [hclosed.live, hgoing.live]
          · rw [← hmiddle]
            exact (List.prefix_append_right_inj bytes).mpr houtput'

/-- A close at the end, where the session was open or had closed. -/
theorem close (h : Carried pcb n m bytes rs) :
    Carried pcb n (netSessionClose (some pcb) m).1 bytes rs := by
  cases h with
  | going hgoing houtput =>
      have hclosed := netSessionClose_closed (.inl hgoing.session)
      refine .closed ⟨hclosed.session, ?_, hclosed.netRx, hclosed.netPendingTx⟩ ?_
      · rw [hclosed.live, hgoing.live]
      · rw [← houtput]
        exact List.prefix_append _ _
  | closed hclosed houtput => exact .closed hclosed.again houtput

end Carried

/-- A frame: no response, one that finds output pending, or one that is
handed to `net_sent_cb` behind its length. -/
theorem netProcessFrame_carried (pcb : Pcb) (env : FrameEnv) (room : TxRoom) {n : NetEndpoint}
    (hsession : n.netSessionPcb = some pcb) :
    let r := netProcessFrame lib pcb env room n
    Carried pcb n r.1 (writtenOn pcb r.2) (reports lib n.device [⟨env, n.netRx.drop 4⟩]) ∧
      ∀ e ∈ r.2, e.Of pcb := by
  have hhead : ∀ es, writtenOn pcb (.frame pcb (n.netRx.drop 4) :: es) = writtenOn pcb es :=
    fun _ => rfl
  have hresponses : responsesOf (reports lib n.device [⟨env, n.netRx.drop 4⟩])
      = (commandProcessFrame lib n.device env (n.netRx.drop 4)
          bridgeTransportResponseMax).1.toList := by
    show List.filterMap _ [_] = _
    rw [List.filterMap_cons, List.filterMap_nil]
    dsimp only
    split
    next hnone => rw [hnone]; rfl
    next hsome => rw [hsome]; rfl
  dsimp only
  rcases netProcessFrame_cases lib pcb env room n with
    ⟨hnone, hr⟩ | ⟨-, -, hn, hes⟩ | ⟨resp, hresp, hpending, hr⟩
  · rw [hr]
    refine ⟨.going ⟨hsession, rfl⟩ ?_, of_cons rfl (by simp)⟩
    rw [hresponses, hnone, hhead]
    exact (List.append_nil _).symm
  · rw [hn, hes]
    refine ⟨.closed ?_ ?_, of_cons rfl (of_cons rfl (of_calls n pcb _))⟩
    · have hclosed := @netSessionClose_closed pcb
        { n with
          device := (commandProcessFrame lib n.device env (n.netRx.drop 4)
            bridgeTransportResponseMax).2
          netRx := [] } (.inl hsession)
      exact ⟨hclosed.session, hclosed.live, hclosed.netRx, hclosed.netPendingTx⟩
    · have hnothing : writtenOn pcb (n.calls pcb [.arg, .recv, .err, .sent, .abort]) = [] :=
        writtenOn_calls (by simp) pcb
      show writtenOn pcb (n.calls pcb _) <+: _
      rw [hnothing]
      exact List.nil_prefix
  · rw [hr]
    refine ⟨.going ⟨?_, ?_⟩ ?_, of_cons rfl (netSentCb_of pcb room _)⟩
    · exact (netSentCb_session pcb room _).trans hsession
    · rw [netSentCb_keeps]
    · rw [hhead, hresponses, hresp, hpending]
      exact (netSentCb_written pcb room _).trans (List.append_nil _).symm

/-- One byte of the loop. -/
theorem netRxByte_carried (pcb : Pcb) (x : RxByte) {n : NetEndpoint}
    (hsession : n.netSessionPcb = some pcb) :
    let r := netRxByte lib pcb x n
    Carried pcb n r.1 (writtenOn pcb r.2.1) (reports lib n.device (netByteCalls x n)) ∧
      ∀ e ∈ r.2.1, e.Of pcb := by
  have hstill : Carried pcb n { n with netRx := n.netRx ++ [x.byte] } [] [] :=
    .still ⟨hsession, rfl⟩ rfl
  have hstore : ∀ e ∈ [NetEvent.store n.netRx.length], e.Of pcb := of_cons trivial (by simp)
  unfold netRxByte
  dsimp only
  by_cases hhead : n.netRx.length < 4
  · have hnone : netByteCalls x n = [] := if_neg fun h => absurd h.1 (Nat.not_le.mpr hhead)
    rw [hnone, if_pos hhead]
    exact ⟨hstill, hstore⟩
  · rw [if_neg hhead]
    by_cases hfull : (n.netRx ++ [x.byte]).length = (4 + be32Of (n.netRx ++ [x.byte])) % 2 ^ 32
    · have hone : netByteCalls x n = [⟨x.env, (n.netRx ++ [x.byte]).drop 4⟩] :=
        if_pos ⟨Nat.not_lt.mp hhead, hfull⟩
      obtain ⟨hcarried, hof⟩ := netProcessFrame_carried lib pcb x.env x.room
        (n := { n with netRx := n.netRx ++ [x.byte] }) hsession
      rw [hone, if_pos hfull]
      exact ⟨hstill.after hsession hcarried, of_cons trivial hof⟩
    · have hnone : netByteCalls x n = [] := if_neg fun h => hfull h.2
      rw [hnone, if_neg hfull]
      exact ⟨hstill, hstore⟩

theorem netRxSegment_carried (pcb : Pcb) (xs : List RxByte) : ∀ (overflow : Bool) {n : NetEndpoint},
    n.netSessionPcb = some pcb →
    let r := netRxSegment lib pcb xs overflow n
    Carried pcb n r.1 (writtenOn pcb r.2.1) (reports lib n.device (netSegmentCalls lib pcb xs n)) ∧
      (∀ e ∈ r.2.1, e.Of pcb) ∧ (r.2.2 = false → r.1.netSessionPcb = some pcb) := by
  induction xs with
  | nil => exact fun _ _ hsession => ⟨.still ⟨hsession, rfl⟩ rfl, by simp [netRxSegment],
      fun _ => hsession⟩
  | cons x xs ih =>
      intro overflow n hsession
      obtain ⟨hbyte, hof⟩ := netRxByte_carried lib pcb x hsession
      have hrest : ∀ overflow', (netRxByte lib pcb x n).1.netSessionPcb = some pcb →
          let r := netRxByte lib pcb x n
          let q := netRxSegment lib pcb xs overflow' r.1
          Carried pcb n q.1 (writtenOn pcb (r.2.1 ++ q.2.1))
              (reports lib n.device (netByteCalls x n ++ netSegmentCalls lib pcb xs r.1)) ∧
            (∀ e ∈ r.2.1 ++ q.2.1, e.Of pcb) ∧
            (q.2.2 = false → q.1.netSessionPcb = some pcb) := by
        intro overflow' hopen
        obtain ⟨hcarried, hof', hover⟩ := ih overflow' hopen
        dsimp only
        rw [writtenOn_append, reports_append lib (netRxByte_makes pcb x n)]
        exact ⟨hbyte.after hopen hcarried, of_append hof hof', hover⟩
      have hkept := netRxByte_kept lib pcb x hsession
      dsimp only [netRxSegment, netSegmentCalls] at hkept ⊢
      rcases hkept with ⟨hnext, hgoing⟩ | ⟨hnext, -⟩
      · rw [if_neg hnext]
        cases hcase : (netRxByte lib pcb x n).2.2 with
        | stop => exact absurd hcase hnext
        | overflow => exact hrest true hgoing.session
        | more => exact hrest overflow hgoing.session
      · rw [hnext, if_pos rfl, List.append_nil]
        exact ⟨hbyte, hof, fun h => by cases h⟩

theorem netRxChain_carried (pcb : Pcb) (chain : PbufChain) : ∀ {n : NetEndpoint},
    n.netSessionPcb = some pcb →
    let r := netRxChain lib pcb chain n
    Carried pcb n r.1 (writtenOn pcb r.2.1) (reports lib n.device (netChainCalls lib pcb chain n)) ∧
      (∀ e ∈ r.2.1, e.Of pcb) ∧ (r.2.2 = false → r.1.netSessionPcb = some pcb) := by
  induction chain with
  | nil => exact fun hsession => ⟨.still ⟨hsession, rfl⟩ rfl, by simp [netRxChain],
      fun _ => hsession⟩
  | cons segment chain ih =>
      intro n hsession
      obtain ⟨hsegment, hof, hopen⟩ := netRxSegment_carried lib pcb segment false hsession
      dsimp only [netRxChain, netChainCalls] at hsegment hof hopen ⊢
      by_cases hstop : (netRxSegment lib pcb segment false n).2.2 = true
      · rw [if_pos hstop, if_pos hstop, List.append_nil]
        exact ⟨hsegment, hof, hopen⟩
      · have hopen' := hopen (Bool.eq_false_iff.mpr hstop)
        obtain ⟨hcarried, hof', hover⟩ := ih hopen'
        rw [if_neg hstop, if_neg hstop, writtenOn_append,
          reports_append lib (netRxSegment_makes pcb segment false n)]
        exact ⟨hsegment.after hopen' hcarried, of_append hof hof', hover⟩

/-- The receive callback of the session. -/
theorem netRecvCb_carried (pcb : Pcb) (p : Option PbufChain) (errOk : Bool) {n : NetEndpoint}
    (hsession : n.netSessionPcb = some pcb) (hlive : pcb ∈ n.live) :
    let r := netRecvCb lib pcb p errOk n
    Carried pcb n r.1 (writtenOn pcb r.2)
        (reports lib n.device (netCalls lib (.recv pcb p errOk) n)) ∧
      ∀ e ∈ r.2, e.Of pcb := by
  have hend : Carried pcb n (netSessionClose (some pcb) n).1
      (writtenOn pcb (netSessionClose (some pcb) n).2) (reports lib n.device []) := by
    rw [netSessionClose_written]
    exact (Carried.still ⟨hsession, rfl⟩ rfl).close
  have hof : ∀ m : NetEndpoint, ∀ e ∈ (netSessionClose (some pcb) m).2, e.Of pcb :=
    fun m => of_calls m pcb _
  unfold netRecvCb
  rw [if_neg (not_not_intro hsession)]
  cases p with
  | none => cases errOk <;> exact ⟨hend, hof n⟩
  | some chain =>
      cases errOk with
      | false => exact ⟨hend, hof n⟩
      | true =>
          rw [netCalls_recv hlive hsession]
          have hchain := netRxChain_carried lib pcb chain hsession
          dsimp only at hchain ⊢
          generalize netRxChain lib pcb chain n = r at hchain ⊢
          obtain ⟨hcarried, hevents, -⟩ := hchain
          have hreceived : writtenOn pcb (.received pcb chain.bytes :: r.2.1)
              = writtenOn pcb r.2.1 := rfl
          have hrecved : writtenOn pcb (r.1.calls pcb [.recved (chain.bytes.length % 65536)])
              = [] := rfl
          rw [writtenOn_append, writtenOn_append, hreceived, hrecved, List.append_nil]
          have hfront := of_append (of_cons (e := .received pcb chain.bytes) rfl hevents)
            (of_calls r.1 pcb [.recved (chain.bytes.length % 65536)])
          split
          · rw [netSessionClose_written, List.append_nil]
            exact ⟨hcarried.close, of_append hfront (hof r.1)⟩
          · exact ⟨(List.append_nil (writtenOn pcb r.2.1)).symm ▸ hcarried,
              of_append hfront (by simp)⟩

-- ================================================================= the runs

/-- No session, no buffers. -/
def Idle (n : NetEndpoint) : Prop :=
  n.netSessionPcb = none → n.netRx = [] ∧ n.netPendingTx = []

/-- A connection's output in a run that opened it: while it is the
session, the responses are written or pending; then a prefix of them was
written. -/
inductive Output (pcb : Pcb) (n : NetEndpoint) (bytes : List UInt8) (rs : List CallReport) : Prop
  | running (session : n.netSessionPcb = some pcb)
      (output : bytes ++ n.netPendingTx = framed (responsesOf rs))
  | ended (session : n.netSessionPcb ≠ some pcb) (output : bytes <+: framed (responsesOf rs))

/-- A step that writes nothing on a connection and leaves what is pending
on it, or is the end of it. -/
structure Leaves (pcb : Pcb) (n m : NetEndpoint) (es : List NetEvent) : Prop where
  written : writtenOn pcb es = []
  kept : m.netSessionPcb = n.netSessionPcb ∧ m.netPendingTx = n.netPendingTx ∨
    m.netSessionPcb ≠ some pcb

theorem Leaves.same {pcb : Pcb} {n m : NetEndpoint} {es : List NetEvent}
    (written : writtenOn pcb es = []) (session : m.netSessionPcb = n.netSessionPcb)
    (pending : m.netPendingTx = n.netPendingTx) : Leaves pcb n m es :=
  ⟨written, .inl ⟨session, pending⟩⟩

namespace Output

variable {pcb : Pcb} {n m : NetEndpoint} {bytes bytes' : List UInt8} {rs rs' : List CallReport}

theorem written (h : Output pcb n bytes rs) : bytes <+: framed (responsesOf rs) := by
  cases h with
  | running _ output =>
      rw [← output]
      exact List.prefix_append _ _
  | ended _ output => exact output

/-- The connection's own receive callback. -/
theorem received (h : Output pcb n bytes rs) (hsession : n.netSessionPcb = some pcb)
    (hcarried : Carried pcb n m bytes' rs') : Output pcb m (bytes ++ bytes') (rs ++ rs') := by
  cases h with
  | ended session _ => exact absurd hsession session
  | running _ output =>
      have htotal : bytes ++ (n.netPendingTx ++ framed (responsesOf rs'))
          = framed (responsesOf (rs ++ rs')) := by
        rw [← List.append_assoc, output, responsesOf_append, framed_append]
      cases hcarried with
      | going kept houtput =>
          refine .running kept.session ?_
          rw [← htotal, ← houtput, List.append_assoc]
      | closed closed houtput =>
          refine .ended (by rw [closed.session]; simp) ?_
          rw [← htotal]
          exact (List.prefix_append_right_inj bytes).mpr houtput

/-- A step that leaves this connection's output. -/
theorem unseen {es : List NetEvent} (h : Output pcb n bytes rs) (hleaves : Leaves pcb n m es) :
    Output pcb m (bytes ++ writtenOn pcb es) rs := by
  rw [hleaves.written, List.append_nil]
  rcases hleaves.kept with ⟨hsession, hpending⟩ | hne
  · cases h with
    | running session output =>
        refine .running (hsession.trans session) ?_
        rw [hpending]
        exact output
    | ended session output => exact .ended (by rwa [hsession]) output
  · exact .ended hne h.written

end Output

theorem accept_leaves {q pcb : Pcb} (hne : q ≠ pcb) (errOk : Bool) (n : NetEndpoint) :
    Leaves pcb n (netStep lib n (.accept (some q) errOk)).1
      (netStep lib n (.accept (some q) errOk)).2 := by
  unfold netStep
  dsimp only
  split
  · exact .same rfl rfl rfl
  · rcases netAcceptCb_cases q errOk { n with live := q :: n.live } with hr | hr | ⟨-, hr⟩
    · rw [hr]
      exact .same rfl rfl rfl
    · rw [hr]
      exact .same rfl rfl rfl
    · rw [hr]
      exact ⟨rfl, .inr fun heq => hne (Option.some.inj heq)⟩

theorem err_leaves (q pcb : Pcb) (n : NetEndpoint) :
    Leaves pcb n (netStep lib n (.err q)).1 (netStep lib n (.err q)).2 := by
  unfold netStep
  dsimp only
  split
  · exact .same rfl rfl rfl
  · exact ⟨rfl, .inr (by simp [netErrCb, netResetFrame])⟩

theorem poll_leaves (env : NetPollEnv) (pcb : Pcb) (n : NetEndpoint) :
    Leaves pcb n (netEndpointPoll env n).1 (netEndpointPoll env n).2 := by
  rcases netEndpointPoll_cases env n with ⟨hes, hsame⟩ | ⟨q, -, hclosed, hes⟩
  · rw [hes]
    exact .same rfl hsame.session hsame.netPendingTx
  · rw [hes]
    refine ⟨writtenOn_calls (by simp) pcb, .inr ?_⟩
    rw [hclosed.session]
    simp

/-- The sent callback: of the session it writes what was pending. -/
theorem sent_output {n : NetEndpoint} (h : NetSound n) (q : Pcb) (room : TxRoom) {pcb : Pcb}
    {bytes : List UInt8} {rs : List CallReport} (houtput : Output pcb n bytes rs) :
    Output pcb (netStep lib n (.sent q room)).1
      (bytes ++ writtenOn pcb (netStep lib n (.sent q room)).2) rs := by
  by_cases hlive : q ∈ n.live
  · have hsession : n.netSessionPcb = some q := by
      rwa [h.live, Option.mem_toList] at hlive
    have hstep : netStep lib n (.sent q room) = ((netSentCb q room n).1,
        (netSentCb q room n).2 ++ [returnedFrom .sent q n (netSentCb q room n).1 .ok]) :=
      if_neg (not_not_intro hlive)
    have hreturned : writtenOn pcb [returnedFrom .sent q n (netSentCb q room n).1 .ok] = [] := rfl
    rw [hstep]
    dsimp only
    rw [writtenOn_append, hreturned, List.append_nil]
    by_cases hq : q = pcb
    · subst hq
      cases houtput with
      | ended session _ => exact absurd hsession session
      | running _ output =>
          refine .running ((netSentCb_session q room n).trans hsession) ?_
          rw [List.append_assoc, netSentCb_written]
          exact output
    · refine houtput.unseen ⟨(of_apart hq (netSentCb_of q room n)).1, .inr ?_⟩
      rw [netSentCb_session, hsession]
      exact fun heq => hq (Option.some.inj heq)
  · have hstep : netStep lib n (.sent q room) = (n, []) := if_pos hlive
    rw [hstep]
    exact houtput.unseen (.same rfl rfl rfl)

/-- The receive callback, of whichever connection. -/
theorem recv_output {n : NetEndpoint} (h : NetSound n) (q : Pcb) (p : Option PbufChain)
    (errOk : Bool) {pcb : Pcb} {bytes : List UInt8} {rs : List CallReport}
    (houtput : Output pcb n bytes rs) :
    let r := netStep lib n (.recv q p errOk)
    let calls := reportsTo lib pcb n (.recv q p errOk)
    Output pcb r.1 (bytes ++ writtenOn pcb r.2) (rs ++ calls) ∧
      calls.map (fun r => r.call.data) = handed pcb r.2 := by
  dsimp only [reportsTo]
  by_cases hlive : q ∈ n.live
  · have hsession : n.netSessionPcb = some q := by
      rwa [h.live, Option.mem_toList] at hlive
    have hstep : netStep lib n (.recv q p errOk) = ((netRecvCb lib q p errOk n).1,
        (netRecvCb lib q p errOk n).2 ++
          [returnedFrom .recv q n (netRecvCb lib q p errOk n).1 .ok]) :=
      if_neg (not_not_intro hlive)
    obtain ⟨hcarried, hof⟩ := netRecvCb_carried lib q p errOk hsession hlive
    have hmakes := @netRecvCb_makes lib q p errOk n hlive
    rw [hstep]
    dsimp only at hcarried hof hmakes ⊢
    generalize netRecvCb lib q p errOk n = r at hcarried hof hmakes ⊢
    have hreturned : writtenOn pcb [returnedFrom .recv q n r.1 .ok] = [] := rfl
    have hreturned' : handed pcb [returnedFrom .recv q n r.1 .ok] = [] := rfl
    rw [writtenOn_append, handed_append, hreturned, hreturned', List.append_nil, List.append_nil]
    by_cases hq : q = pcb
    · subst hq
      rw [if_pos rfl, reports_data, hmakes.frames, of_handed hof]
      exact ⟨houtput.received hsession hcarried, rfl⟩
    · obtain ⟨hwritten, hhanded⟩ := of_apart hq hof
      rw [if_neg hq, hhanded, List.append_nil]
      refine ⟨houtput.unseen ⟨hwritten, .inr ?_⟩, rfl⟩
      rcases hcarried.kept with hgoing | hclosed
      · rw [hgoing.session]
        exact fun heq => hq (Option.some.inj heq)
      · rw [hclosed.session]
        simp
  · have hstep : netStep lib n (.recv q p errOk) = (n, []) := if_pos hlive
    have hnone : reports lib n.device (netCalls lib (.recv q p errOk) n) = [] := by
      rw [netCalls_none fun hcall => hlive hcall.1]
      rfl
    rw [hstep, hnone, ite_self, List.append_nil]
    exact ⟨houtput.unseen (.same rfl rfl rfl), rfl⟩

/-- Any step, but one that opens the connection again. -/
theorem step_output {n : NetEndpoint} (h : NetSound n) (i : NetInput) {pcb : Pcb}
    (honce : ∀ errOk, i ≠ .accept (some pcb) errOk) {bytes : List UInt8} {rs : List CallReport}
    (houtput : Output pcb n bytes rs) :
    let r := netStep lib n i
    Output pcb r.1 (bytes ++ writtenOn pcb r.2) (rs ++ reportsTo lib pcb n i) ∧
      (reportsTo lib pcb n i).map (fun r => r.call.data) = handed pcb r.2 := by
  by_cases hrecv : ∃ q p errOk, i = .recv q p errOk
  · obtain ⟨q, p, errOk, rfl⟩ := hrecv
    exact recv_output lib h q p errOk houtput
  · have hquiet : ∀ q p errOk, i ≠ .recv q p errOk := fun q p errOk hi => hrecv ⟨q, p, errOk, hi⟩
    have hnone : reportsTo lib pcb n i = [] := by
      cases i with
      | recv q p errOk => exact absurd rfl (hquiet q p errOk)
      | _ => rfl
    have hhanded := (plain_unseen (quiet_keeps lib h hquiet).2.1 pcb).2.1
    dsimp only
    rw [hnone, hhanded, List.append_nil]
    refine ⟨?_, rfl⟩
    cases i with
    | recv q p errOk => exact absurd rfl (hquiet q p errOk)
    | accept newpcb errOk =>
        cases newpcb with
        | none => cases errOk <;> exact houtput.unseen (.same rfl rfl rfl)
        | some q =>
            have hq : q ≠ pcb := by
              rintro rfl
              exact honce errOk rfl
            exact houtput.unseen (accept_leaves lib hq errOk n)
    | sent q room => exact sent_output lib h q room houtput
    | err q => exact houtput.unseen (err_leaves lib q pcb n)
    | poll env => exact houtput.unseen (poll_leaves env pcb n)
    | elsewhere device => exact houtput.unseen (.same rfl rfl rfl)

/-- The output of a connection in a run. -/
theorem run_output (pcb : Pcb) (is : List NetInput) : ∀ {n : NetEndpoint} {bytes : List UInt8}
    {rs : List CallReport}, NetSound n → (∀ errOk, .accept (some pcb) errOk ∉ is) →
    Output pcb n bytes rs →
    Output pcb ((netMachine lib).final n is)
        (bytes ++ writtenOn pcb ((netMachine lib).trace n is)) (rs ++ reportsOn lib pcb n is) ∧
      (reportsOn lib pcb n is).map (fun r => r.call.data)
        = handed pcb ((netMachine lib).trace n is) := by
  induction is with
  | nil =>
      intro n bytes rs _ _ houtput
      refine ⟨?_, rfl⟩
      show Output pcb n (bytes ++ []) (rs ++ [])
      rw [List.append_nil, List.append_nil]
      exact houtput
  | cons i is ih =>
      intro n bytes rs hsound honce houtput
      obtain ⟨hstep, hframes⟩ := step_output lib hsound i
        (fun errOk heq => honce errOk (heq ▸ List.mem_cons_self)) houtput
      obtain ⟨hrun, hframes'⟩ := ih (step_lifetime lib hsound i).1
        (fun errOk hmem => honce errOk (List.mem_cons_of_mem i hmem)) hstep
      rw [List.append_assoc, List.append_assoc, ← writtenOn_append] at hrun
      refine ⟨hrun, ?_⟩
      rw [reportsOn, List.map_append, hframes, hframes', ← handed_append]
      rfl

/-- A step that ends the session empties both buffers. -/
theorem step_idle {n : NetEndpoint} (h : NetSound n) (hidle : Idle n) (i : NetInput) :
    Idle (netStep lib n i).1 := by
  cases i with
  | recv q p errOk =>
      rcases recv_step lib h q p errOk with hr | ⟨hsession, hr⟩
      · rw [hr]
        exact hidle
      · have hlive : q ∈ n.live := by
          rw [h.live, hsession]
          exact List.mem_singleton_self q
        rw [hr]
        intro hnone
        rcases (netRecvCb_carried lib q p errOk hsession hlive).1.kept with hgoing | hclosed
        · rw [hgoing.session] at hnone
          cases hnone
        · exact ⟨hclosed.netRx, hclosed.netPendingTx⟩
  | accept newpcb errOk =>
      cases newpcb with
      | none => cases errOk <;> exact hidle
      | some q =>
          unfold netStep
          dsimp only
          split
          · exact hidle
          · rcases netAcceptCb_cases q errOk { n with live := q :: n.live } with hr | hr | ⟨-, hr⟩
            all_goals rw [hr]
            · exact hidle
            · exact hidle
            · exact fun hnone => by cases hnone
  | sent q room =>
      unfold netStep
      dsimp only
      split
      next => exact hidle
      next hlive =>
        intro hnone
        have hsession : n.netSessionPcb = none := (netSentCb_session q room n).symm.trans hnone
        rw [not_not, h.live, hsession] at hlive
        cases hlive
  | err q =>
      unfold netStep
      dsimp only
      split
      · exact hidle
      · exact fun _ => ⟨rfl, rfl⟩
  | poll env =>
      show Idle (netEndpointPoll env n).1
      rcases netEndpointPoll_cases env n with ⟨-, hsame⟩ | ⟨q, -, hclosed, -⟩
      · intro hnone
        rw [hsame.netRx, hsame.netPendingTx]
        exact hidle (hsame.session.symm.trans hnone)
      · exact fun _ => ⟨hclosed.netRx, hclosed.netPendingTx⟩
  | elsewhere device => exact hidle

/-- The states of a run from the boot, whatever arrives. -/
theorem idle_run (device : Device) (radioRecord : Bool) (is : List NetInput) :
    let n := (netMachine lib).final (netEndpointStart radioRecord (netEndpointInit device)) is
    NetSound n ∧ Idle n := by
  refine (netMachine lib).final_inv (P := fun n => NetSound n ∧ Idle n)
    (fun n i h => ⟨(step_lifetime lib h.1 i).1, step_idle lib h.1 h.2 i⟩)
    ⟨netSound_start device radioRecord, fun _ => ?_⟩ is
  cases radioRecord <;> exact ⟨rfl, rfl⟩

/-- Output of a connection and isolation of the next one, over every run:
whatever the order of callbacks and polls, whatever `tcp_sndbuf` says and
whichever writes `tcp_write` takes. What is written on a connection is a
prefix of its responses behind their lengths, in order; all of them but
what is pending, as long as it is open. The calls are those of the frames
that the connection handed on. Without a session, `net_rx` and
`net_pending_tx` are empty. -/
theorem output_of_session (device : Device) (radioRecord : Bool) (before after : List NetInput)
    (pcb : Pcb) (honce : ∀ errOk, .accept (some pcb) errOk ∉ after) :
    let boot := netEndpointStart radioRecord (netEndpointInit device)
    let accepting := (netMachine lib).final boot before
    let opened := (netStep lib accepting (.accept (some pcb) true)).1
    let es := (netMachine lib).trace opened after
    let calls := reportsOn lib pcb opened after
    let now := (netMachine lib).final opened after
    Idle accepting ∧ Idle now ∧
      (accepting.netSessionPcb = none →
        calls.map (fun r => r.call.data) = handed pcb es ∧
        writtenOn pcb es <+: framed (responsesOf calls) ∧
        (now.netSessionPcb = some pcb →
          writtenOn pcb es ++ now.netPendingTx = framed (responsesOf calls))) := by
  intro boot accepting opened es calls now
  obtain ⟨hsound, hidle⟩ := idle_run lib device radioRecord before
  have hidle' := (idle_run lib device radioRecord
    (before ++ .accept (some pcb) true :: after)).2
  rw [Machine.final_append] at hidle'
  refine ⟨hidle, hidle', fun hnone => ?_⟩
  have hopened : Output pcb opened [] [] := by
    show Output pcb (netStep lib accepting _).1 [] []
    rw [accept_idle lib hsound hnone]
    exact .running rfl rfl
  obtain ⟨houtput, hframes⟩ := run_output lib pcb after (step_lifetime lib hsound _).1 honce hopened
  refine ⟨hframes, houtput.written, fun hopen => ?_⟩
  cases houtput with
  | running _ output => exact output
  | ended session _ => exact absurd hopen session

/-- A TICK of a session, cut inside its length, and a peer that takes the
receipt in three parts, with a write refused between them. -/
def answeredFrame : List NetInput :=
  let frame := sealedFrame (tagKey 7) 0 [bleCmdTick, 0, 0, 0, 0]
  let bytes := (be32 frame.length ++ frame).map fun byte => ⟨byte, envAt 1000, ⟨10, true⟩⟩
  [.recv 7 (some [bytes.take 2, (bytes.drop 2).take 10]) true,
    .recv 7 (some [bytes.drop 12]) true,
    .sent 7 ⟨10, true⟩, .sent 7 ⟨10, false⟩, .sent 7 ⟨4096, true⟩]

theorem output_of_session_answered :
    let lib := toyCrypto none
    let opened := (netStep lib
      (netEndpointStart true (netEndpointInit sessionDevice)) (.accept (some 7) true)).1
    let es := (netMachine lib).trace opened answeredFrame
    let calls := reportsOn lib 7 opened answeredFrame
    calls.map (fun r => r.call.data) = handed 7 es ∧
      writtenOn 7 es = framed (responsesOf calls) ∧
      ((es.map (NetEvent.writtenTo 7)).filter (· ≠ [])).map List.length = [10, 10, 15] := by
  intro lib opened es calls
  obtain ⟨-, -, h⟩ := output_of_session (toyCrypto none) sessionDevice true [] answeredFrame 7
    (by simp [answeredFrame])
  obtain ⟨hframes, -, hwritten⟩ := h rfl
  have hall : writtenOn 7 es ++ ((netMachine lib).final opened answeredFrame).netPendingTx
      = framed (responsesOf calls) := hwritten (by decide +kernel)
  have hnone : ((netMachine lib).final opened answeredFrame).netPendingTx = [] := by
    decide +kernel
  rw [hnone, List.append_nil] at hall
  exact ⟨hframes, hall, by decide +kernel⟩

end PicoBridge
