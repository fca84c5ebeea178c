/-
The lifetime of the TCP endpoint's connections, over every run: which
lwIP calls meet a pcb that is gone, and what the callbacks tell lwIP of
it.

# The contract

A pcb is gone once `tcp_abort` was called on it or its error callback
ran. No call may be made on it then (`tcp_abort` included, so that none
is aborted twice), and a receive or accept callback in which its own pcb
was aborted has to return ERR_ABRT: `NetEvent.Honours`.

# Where the code keeps it

`net_accept_cb` and `net_endpoint_poll` always do. `net_recv_cb` returns
ERR_OK whatever it did, so it keeps the contract where it closes nothing
(`Undisturbed`): data arrives, no length is refused (`Quiet`), and no
response finds output pending. That this is exact is one induction over
the bytes of a chain (`netRxChain_lifetime`), whose other half says only
that the loop ends with `overflow` set.
-/
import PicoBridge.Link.Stream

namespace PicoBridge

open Lib (Machine Format)

-- ============================================================ the contract

/-- The raw-API contract: calls on live pcbs only, and ERR_ABRT from a
receive or accept callback whose pcb was aborted in it. -/
def NetEvent.Honours : NetEvent → Prop
  | .call _ _ live => live = true
  | .returned callback _ aborted err => aborted = true → callback ≠ .sent → err = .abrt
  | _ => True

instance : DecidablePred NetEvent.Honours := fun e => by
  cases e <;> unfold NetEvent.Honours <;> infer_instance

/-- What `net_sent_cb` leaves of its pending output. -/
def txLeft (room : TxRoom) (tx : List UInt8) : List UInt8 :=
  if room.space = 0 ∨ ¬room.writes then tx
  else tx.drop (if tx.length < room.space then tx.length % 65536 else room.space % 65536)

variable (lib : Crypto)

/-- Bytes that close nothing: no length among them is refused, and each
response finds the one before it sent. -/
def Quiet (d : Device) (pending rx : List UInt8) : List RxByte → Prop
  | [] => True
  | x :: xs =>
      match netFormat.push (some rx) x.byte with
      | (none, _) => False
      | (some rx, []) => Quiet d pending rx xs
      | (some rx, data :: _) =>
          let c := commandProcessFrame lib d x.env data bridgeTransportResponseMax
          match c.1 with
          | none => Quiet c.2 pending rx xs
          | some resp =>
              pending = [] ∧ Quiet c.2 (txLeft x.room (be32 resp.length ++ resp)) rx xs

/-- The same, of what an endpoint receives. -/
def NetEndpoint.QuietOn (n : NetEndpoint) (xs : List RxByte) : Prop :=
  Quiet lib n.device n.netPendingTx n.netRx xs

/-- An input that closes no connection from inside its own callback:
where it is a receive callback, that is one with data that is quiet. -/
def Undisturbed (n : NetEndpoint) : NetInput → Prop
  | .recv pcb p errOk =>
      pcb ∈ n.live → errOk = true ∧ ∃ chain, p = some chain ∧ n.QuietOn lib chain.flatten
  | _ => True

-- =========================================================== the callbacks

theorem calls_honour {n : NetEndpoint} {pcb : Pcb} (hlive : pcb ∈ n.live) (cs : List LwipCall) :
    ∀ e ∈ n.calls pcb cs, e.Honours := by
  intro e he
  obtain ⟨c, -, rfl⟩ := List.mem_map.mp he
  exact decide_eq_true hlive

/-- A callback that leaves its pcb there may return anything. -/
theorem returned_honours {callback : NetCallback} {pcb : Pcb} {n m : NetEndpoint} {err : LwipErr}
    (hlive : pcb ∈ m.live) : (returnedFrom callback pcb n m err).Honours := by
  intro haborted
  exact absurd hlive (of_decide_eq_true haborted).2

/-- A receive callback that does not leaves lwIP with a pcb that is gone. -/
theorem recv_dishonours {pcb : Pcb} {n m : NetEndpoint} (hlive : pcb ∈ n.live)
    (hgone : pcb ∉ m.live) : ¬(returnedFrom .recv pcb n m .ok).Honours := by
  intro h
  exact absurd (h (decide_eq_true ⟨hlive, hgone⟩) (by decide)) (by decide)

theorem accept_honours (n : NetEndpoint) (pcb : Pcb) (errOk : Bool) :
    ∀ e ∈ (netStep lib n (.accept (some pcb) errOk)).2, e.Honours := by
  unfold netStep
  dsimp only
  by_cases hlive : pcb ∈ n.live
  · rw [if_pos hlive]
    simp
  · rw [if_neg hlive]
    have hthere : pcb ∈ ({ n with live := pcb :: n.live } : NetEndpoint).live := List.mem_cons_self
    intro e he
    rcases netAcceptCb_cases pcb errOk { n with live := pcb :: n.live } with
      hr | hr | ⟨-, hr⟩
    · rw [hr] at he
      rw [List.mem_singleton.mp he]
      exact returned_honours hthere
    · rw [hr] at he
      rcases List.mem_append.mp he with he | he
      · exact calls_honour hthere _ e he
      · rw [List.mem_singleton.mp he]
        exact fun _ _ => rfl
    · rw [hr] at he
      rcases List.mem_append.mp he with he | he
      · exact calls_honour hthere _ e he
      · rw [List.mem_singleton.mp he]
        exact returned_honours hthere

theorem poll_honours {n : NetEndpoint} (h : NetSound n) (env : NetPollEnv) :
    ∀ e ∈ (netEndpointPoll env n).2, e.Honours := by
  rcases netEndpointPoll_cases env n with ⟨hes, -⟩ | ⟨pcb, hsession, -, hes⟩
  · rw [hes]
    simp
  · rw [hes]
    refine calls_honour ?_ _
    rw [h.live, hsession]
    exact List.mem_singleton_self pcb

/-- What is not a receive callback keeps the contract. -/
theorem quiet_honours {n : NetEndpoint} (h : NetSound n) {i : NetInput}
    (hi : ∀ pcb p errOk, i ≠ .recv pcb p errOk) : ∀ e ∈ (netStep lib n i).2, e.Honours := by
  cases i with
  | recv pcb p errOk => exact absurd rfl (hi pcb p errOk)
  | accept newpcb errOk =>
      cases newpcb with
      | none => cases errOk <;> simp [netStep, netAcceptCb]
      | some pcb => exact accept_honours lib n pcb errOk
  | sent pcb room =>
      unfold netStep
      dsimp only
      by_cases hlive : pcb ∈ n.live
      · rw [if_neg (not_not_intro hlive)]
        obtain ⟨cs, hcs⟩ := netSentCb_calls pcb room n
        rw [hcs]
        intro e he
        rcases List.mem_append.mp he with he | he
        · exact calls_honour hlive cs e he
        · rw [List.mem_singleton.mp he]
          exact fun _ hsent => absurd rfl hsent
      · rw [if_pos hlive]
        simp
  | err pcb =>
      unfold netStep
      dsimp only
      split <;> simp
  | poll env => exact poll_honours h env
  | elsewhere device => simp [netStep]

-- ================================================================ one byte

theorem netSentCb_left {pcb : Pcb} {room : TxRoom} {n : NetEndpoint}
    (hsession : n.netSessionPcb = some pcb) :
    (netSentCb pcb room n).1 = { n with netPendingTx := txLeft room n.netPendingTx } := by
  unfold netSentCb txLeft
  dsimp only
  rw [if_neg (not_not_intro hsession)]
  by_cases hempty : n.netPendingTx.length = 0
  · have hnil := List.length_eq_zero_iff.mp hempty
    rw [if_pos hempty]
    split
    · rfl
    · rw [hnil, List.drop_nil, ← hnil]
  · rw [if_neg hempty]
    by_cases hspace : room.space = 0
    · rw [if_pos hspace, if_pos (.inl hspace)]
    · rw [if_neg hspace]
      by_cases hwrites : room.writes
      · rw [if_neg (not_not_intro hwrites), if_neg (not_or.mpr ⟨hspace, not_not_intro hwrites⟩)]
      · rw [if_pos hwrites, if_pos (.inr hwrites)]

/-- The session as it was. -/
structure Going (pcb : Pcb) (n m : NetEndpoint) : Prop where
  session : m.netSessionPcb = some pcb
  live : m.live = n.live

/-- The session as it was, or closed. -/
def Kept (pcb : Pcb) (n m : NetEndpoint) : Prop :=
  Going pcb n m ∨ Closed pcb n m

theorem Kept.after {pcb : Pcb} {n m k : NetEndpoint} (hm : Going pcb n m) (h : Kept pcb m k) :
    Kept pcb n k := by
  rcases h with hgoing | hclosed
  · exact .inl ⟨hgoing.session, hgoing.live.trans hm.live⟩
  · refine .inr ⟨hclosed.session, ?_, hclosed.netRx, hclosed.netPendingTx⟩
    rw [hclosed.live, hm.live]

/-- A frame closes the session where it finds output pending. -/
theorem netProcessFrame_kept (pcb : Pcb) (env : FrameEnv) (room : TxRoom) {n : NetEndpoint}
    (hsession : n.netSessionPcb = some pcb) :
    Kept pcb n (netProcessFrame lib pcb env room n).1 := by
  obtain ⟨-, -, ⟨hopen, hlive, -, -⟩ | ⟨hclosed, -⟩⟩ :=
    netProcessFrame_outcome lib pcb env room hsession
  · exact .inl ⟨hopen, hlive⟩
  · exact .inr hclosed

/-- A byte stops the loop where it closes the session. -/
theorem netRxByte_kept (pcb : Pcb) (x : RxByte) {n : NetEndpoint}
    (hsession : n.netSessionPcb = some pcb) :
    let r := netRxByte lib pcb x n
    (r.2.2 ≠ .stop ∧ Going pcb n r.1) ∨ (r.2.2 = .stop ∧ Closed pcb n r.1) := by
  unfold netRxByte
  dsimp only
  split
  · refine .inl ⟨?_, hsession, rfl⟩
    dsimp only
    split <;> decide
  · split
    · rcases netProcessFrame_kept lib pcb x.env x.room
        (n := { n with netRx := n.netRx ++ [x.byte] }) hsession with hgoing | hclosed
      · refine .inl ⟨?_, hgoing.session, hgoing.live⟩
        dsimp only
        rw [if_neg (by rw [hgoing.session]; simp)]
        decide
      · refine .inr ⟨?_, hclosed.session, hclosed.live, hclosed.netRx, hclosed.netPendingTx⟩
        exact if_pos hclosed.session
    · refine .inl ⟨?_, hsession, rfl⟩
      dsimp only
      rw [if_neg (by rw [hsession]; simp)]
      decide

/-- Once `overflow` is set, it stays. -/
theorem netRxSegment_kept (pcb : Pcb) (xs : List RxByte) : ∀ {n : NetEndpoint},
    n.netSessionPcb = some pcb →
    let r := netRxSegment lib pcb xs true n
    r.2.2 = true ∧ Kept pcb n r.1 := by
  induction xs with
  | nil => exact fun hsession => ⟨rfl, .inl ⟨hsession, rfl⟩⟩
  | cons x xs ih =>
      intro n hsession
      have hrest : ∀ m : NetEndpoint, Going pcb n m →
          let r := netRxSegment lib pcb xs true m
          r.2.2 = true ∧ Kept pcb n r.1 := by
        intro m hm
        obtain ⟨hoverflow, hkept⟩ := ih hm.session
        exact ⟨hoverflow, hkept.after hm⟩
      have hbyte := netRxByte_kept lib pcb x hsession
      dsimp only at hbyte ⊢
      unfold netRxSegment
      dsimp only
      rcases hbyte with ⟨hnext, hgoing⟩ | ⟨hnext, hclosed⟩
      · cases hcase : (netRxByte lib pcb x n).2.2 with
        | stop => exact absurd hcase hnext
        | overflow => exact hrest _ hgoing
        | more => exact hrest _ hgoing
      · rw [hnext]
        exact ⟨rfl, .inr hclosed⟩

/-- A frame of a session: no response, one that is sent, or one that
finds output pending. -/
theorem netProcessFrame_lifetime (pcb : Pcb) (env : FrameEnv) (room : TxRoom) {n : NetEndpoint}
    (hsession : n.netSessionPcb = some pcb) (hlive : pcb ∈ n.live) :
    let c := commandProcessFrame lib n.device env (n.netRx.drop 4) bridgeTransportResponseMax
    let r := netProcessFrame lib pcb env room n
    (c.1 = none ∧ r.1 = { n with device := c.2, netRx := [] } ∧ ∀ e ∈ r.2, e.Honours) ∨
    (∃ resp, c.1 = some resp ∧ n.netPendingTx = [] ∧
      r.1 = { n with
        device := c.2
        netRx := []
        netPendingTx := txLeft room (be32 resp.length ++ resp) } ∧
      ∀ e ∈ r.2, e.Honours) ∨
    (∃ resp, c.1 = some resp ∧ n.netPendingTx ≠ [] ∧ Closed pcb n r.1) := by
  dsimp only
  have hhonours : ∀ es : List NetEvent, (∀ e ∈ es, e.Honours) →
      ∀ e ∈ .frame pcb (n.netRx.drop 4) :: es, e.Honours := by
    intro es hes e he
    rcases List.mem_cons.mp he with rfl | he
    · trivial
    · exact hes e he
  rcases netProcessFrame_cases lib pcb env room n with
    ⟨hnone, hr⟩ | ⟨hsome, hpending, hr, -⟩ | ⟨resp, hresp, hpending, hr⟩
  · rw [hr]
    exact .inl ⟨hnone, rfl, hhonours [] (by simp)⟩
  · obtain ⟨resp, hresp⟩ := Option.isSome_iff_exists.mp hsome
    refine .inr (.inr ⟨resp, hresp, hpending, ?_⟩)
    rw [hr]
    have hclosed := @netSessionClose_closed pcb
      { n with
        device := (commandProcessFrame lib n.device env (n.netRx.drop 4)
          bridgeTransportResponseMax).2
        netRx := [] } (.inl hsession)
    exact ⟨hclosed.session, hclosed.live, hclosed.netRx, hclosed.netPendingTx⟩
  · refine .inr (.inl ⟨resp, hresp, hpending, ?_⟩)
    rw [hr]
    dsimp only
    obtain ⟨cs, hcs⟩ := netSentCb_calls pcb room
      { n with
        device := (commandProcessFrame lib n.device env (n.netRx.drop 4)
          bridgeTransportResponseMax).2
        netRx := []
        netPendingTx := be32 resp.length ++ resp }
    rw [hcs]
    exact ⟨netSentCb_left hsession, hhonours _ (calls_honour hlive cs)⟩

/-- A byte goes on with the contract kept exactly where it is quiet. -/
theorem netRxByte_lifetime (pcb : Pcb) (x : RxByte) {n : NetEndpoint}
    (hsession : n.netSessionPcb = some pcb) (hrx : netFormat.Unfinished n.netRx)
    (hlive : pcb ∈ n.live) :
    let r := netRxByte lib pcb x n
    (r.2.2 = .more ∧ Going pcb n r.1 ∧ netFormat.Unfinished r.1.netRx ∧
        (∀ e ∈ r.2.1, e.Honours) ∧
        ∀ xs, n.QuietOn lib (x :: xs) ↔ r.1.QuietOn lib xs) ∨
      (r.2.2 ≠ .more ∧ ∀ xs, ¬n.QuietOn lib (x :: xs)) := by
  dsimp only
  rcases netRxByte_cases lib pcb x hsession hrx with
    ⟨hpush, hmore, hr⟩ | ⟨hpush, -, -, hr⟩ | ⟨hpush, hr⟩
  · rw [hr]
    refine .inl ⟨rfl, ⟨hsession, rfl⟩, hmore, by simp [NetEvent.Honours], fun xs => ?_⟩
    unfold NetEndpoint.QuietOn
    rw [Quiet, hpush]
  · rw [hr]
    refine .inr ⟨by simp, fun xs => ?_⟩
    unfold NetEndpoint.QuietOn
    rw [Quiet, hpush]
    exact id
  · rw [hr]
    dsimp only
    rcases netProcessFrame_lifetime lib pcb x.env x.room
        (n := { n with netRx := n.netRx ++ [x.byte] }) hsession hlive with
      ⟨hnone, hq, hev⟩ | ⟨resp, hresp, hpending, hq, hev⟩ | ⟨resp, hresp, hpending, hclosed⟩
    · rw [hq]
      dsimp only
      rw [if_neg (by rw [hsession]; simp)]
      refine .inl ⟨rfl, ⟨hsession, rfl⟩, netFormat.unfinished_nil, ?_, fun xs => ?_⟩
      · intro e he
        rcases List.mem_cons.mp he with rfl | he
        · trivial
        · exact hev e he
      · unfold NetEndpoint.QuietOn
        rw [Quiet, hpush]
        dsimp only
        rw [hnone]
    · rw [hq]
      dsimp only
      rw [if_neg (by rw [hsession]; simp)]
      refine .inl ⟨rfl, ⟨hsession, rfl⟩, netFormat.unfinished_nil, ?_, fun xs => ?_⟩
      · intro e he
        rcases List.mem_cons.mp he with rfl | he
        · trivial
        · exact hev e he
      · unfold NetEndpoint.QuietOn
        rw [Quiet, hpush]
        dsimp only
        rw [hresp]
        exact and_iff_right hpending
    · refine .inr ⟨?_, fun xs => ?_⟩
      · rw [if_pos hclosed.session]
        simp
      · unfold NetEndpoint.QuietOn
        rw [Quiet, hpush]
        dsimp only
        rw [hresp]
        exact fun h => hpending h.1

/-- So does a segment, with what follows it. -/
theorem netRxSegment_lifetime (pcb : Pcb) (xs ys : List RxByte) : ∀ {n : NetEndpoint},
    n.netSessionPcb = some pcb → netFormat.Unfinished n.netRx → pcb ∈ n.live →
    let r := netRxSegment lib pcb xs false n
    (r.2.2 = false ∧ Going pcb n r.1 ∧ netFormat.Unfinished r.1.netRx ∧
        (∀ e ∈ r.2.1, e.Honours) ∧
        (n.QuietOn lib (xs ++ ys) ↔ r.1.QuietOn lib ys)) ∨
      (r.2.2 = true ∧ Kept pcb n r.1 ∧ ¬n.QuietOn lib (xs ++ ys)) := by
  induction xs with
  | nil =>
      intro n hsession hrx _
      exact .inl ⟨rfl, ⟨hsession, rfl⟩, hrx, by simp [netRxSegment], Iff.rfl⟩
  | cons x xs ih =>
      intro n hsession hrx hlive
      unfold netRxSegment
      dsimp only
      rcases netRxByte_lifetime lib pcb x hsession hrx hlive with
        ⟨hnext, hgoing, hrx', hev, hquiet⟩ | ⟨hnext, hquiet⟩
      · rw [hnext]
        dsimp only
        rcases ih hgoing.session hrx' (hgoing.live ▸ hlive) with
          ⟨hoverflow, hgoing', hrx'', hev', hquiet'⟩ | ⟨hoverflow, hkept, hquiet'⟩
        · refine .inl ⟨hoverflow, ⟨hgoing'.session, hgoing'.live.trans hgoing.live⟩, hrx'', ?_,
            (hquiet _).trans hquiet'⟩
          intro e he
          exact (List.mem_append.mp he).elim (hev e) (hev' e)
        · exact .inr ⟨hoverflow, hkept.after hgoing, fun h => hquiet' ((hquiet _).mp h)⟩
      · refine .inr ?_
        have hbyte := netRxByte_kept lib pcb x hsession
        dsimp only at hbyte
        cases hcase : (netRxByte lib pcb x n).2.2 with
        | more => exact absurd hcase hnext
        | stop =>
            rcases hbyte with ⟨hne, -⟩ | ⟨-, hclosed⟩
            · exact absurd hcase hne
            · exact ⟨rfl, .inr hclosed, hquiet _⟩
        | overflow =>
            rcases hbyte with ⟨-, hgoing⟩ | ⟨heq, -⟩
            · obtain ⟨hoverflow, hkept⟩ := netRxSegment_kept lib pcb xs hgoing.session
              exact ⟨hoverflow, hkept.after hgoing, hquiet _⟩
            · rw [hcase] at heq
              cases heq

/-- And a chain. -/
theorem netRxChain_lifetime (pcb : Pcb) (chain : PbufChain) : ∀ {n : NetEndpoint},
    n.netSessionPcb = some pcb → netFormat.Unfinished n.netRx → pcb ∈ n.live →
    let r := netRxChain lib pcb chain n
    (r.2.2 = false ∧ Going pcb n r.1 ∧ netFormat.Unfinished r.1.netRx ∧
        (∀ e ∈ r.2.1, e.Honours) ∧ n.QuietOn lib chain.flatten) ∨
      (r.2.2 = true ∧ Kept pcb n r.1 ∧ ¬n.QuietOn lib chain.flatten) := by
  induction chain with
  | nil =>
      intro n hsession hrx _
      exact .inl ⟨rfl, ⟨hsession, rfl⟩, hrx, by simp [netRxChain], trivial⟩
  | cons segment chain ih =>
      intro n hsession hrx hlive
      unfold netRxChain
      dsimp only
      rw [List.flatten_cons]
      rcases netRxSegment_lifetime lib pcb segment chain.flatten hsession hrx hlive with
        ⟨hoverflow, hgoing, hrx', hev, hquiet⟩ | ⟨hoverflow, hkept, hquiet⟩
      · rw [if_neg (by rw [hoverflow]; exact Bool.false_ne_true)]
        rcases ih hgoing.session hrx' (hgoing.live ▸ hlive) with
          ⟨hoverflow', hgoing', hrx'', hev', hquiet'⟩ | ⟨hoverflow', hkept, hquiet'⟩
        · refine .inl ⟨hoverflow', ⟨hgoing'.session, hgoing'.live.trans hgoing.live⟩, hrx'', ?_,
            hquiet.mpr hquiet'⟩
          intro e he
          exact (List.mem_append.mp he).elim (hev e) (hev' e)
        · exact .inr ⟨hoverflow', hkept.after hgoing, fun h => hquiet' (hquiet.mp h)⟩
      · rw [if_pos hoverflow]
        exact .inr ⟨hoverflow, hkept, hquiet⟩

-- ================================================================= the runs

/-- What closes the session in its own receive callback breaks the
contract, whatever else it did. -/
theorem recv_breaks {pcb : Pcb} {n m : NetEndpoint} {es : List NetEvent} (hlive : pcb ∈ n.live)
    (hgone : pcb ∉ m.live) : ¬∀ e ∈ es ++ [returnedFrom .recv pcb n m .ok], e.Honours := by
  intro h
  exact recv_dishonours hlive hgone (h _ (List.mem_append.mpr (.inr (List.mem_singleton_self _))))

theorem Closed.gone {pcb : Pcb} {n m : NetEndpoint} (h : Closed pcb n m) : pcb ∉ m.live := by
  rw [h.live]
  simp

/-- A receive callback is quiet and the session goes on, or it is not and
the session is closed. -/
theorem netRecvCb_either {n : NetEndpoint} (h : NetSound n) {pcb : Pcb}
    (hsession : n.netSessionPcb = some pcb) (p : Option PbufChain) (errOk : Bool) :
    let r := netRecvCb lib pcb p errOk n
    let quiet := errOk = true ∧ ∃ chain, p = some chain ∧ n.QuietOn lib chain.flatten
    (quiet ∧ Going pcb n r.1 ∧ netFormat.Unfinished r.1.netRx ∧ ∀ e ∈ r.2, e.Honours) ∨
      (¬quiet ∧ Closed pcb n r.1) := by
  have hlive : pcb ∈ n.live := by
    rw [h.live, hsession]
    exact List.mem_singleton_self pcb
  have hclosed := netSessionClose_closed (.inl hsession)
  unfold netRecvCb
  rw [if_neg (not_not_intro hsession)]
  cases errOk with
  | false => exact .inr ⟨fun h => Bool.false_ne_true h.1, hclosed⟩
  | true =>
      cases p with
      | none =>
          refine .inr ⟨?_, hclosed⟩
          rintro ⟨-, _, hp, -⟩
          cases hp
      | some chain =>
          dsimp only
          have hchain := netRxChain_lifetime lib pcb chain hsession h.unfinished hlive
          generalize netRxChain lib pcb chain n = r at hchain ⊢
          rcases hchain with ⟨hoverflow, hgoing, hrx, hev, hquiet⟩ | ⟨hoverflow, hkept, hquiet⟩
          · rw [if_neg (by rw [hoverflow]; exact Bool.false_ne_true)]
            refine .inl ⟨⟨rfl, chain, rfl, hquiet⟩, hgoing, hrx, ?_⟩
            intro e he
            simp only [List.mem_append, List.mem_cons, List.not_mem_nil, or_false] at he
            rcases he with (rfl | he) | he
            · trivial
            · exact hev e he
            · exact calls_honour (hgoing.live ▸ hlive) _ e he
          · rw [if_pos hoverflow]
            refine .inr ⟨?_, ?_⟩
            · rintro ⟨-, chain', hchain', hquiet'⟩
              cases hchain'
              exact hquiet hquiet'
            · rcases hkept with hgoing | hclosed
              · have hc := netSessionClose_closed (.inl hgoing.session)
                refine ⟨hc.session, ?_, hc.netRx, hc.netPendingTx⟩
                rw [hc.live, hgoing.live]
              · exact hclosed.again

/-- A receive callback keeps the contract exactly where nothing disturbs
it, and leaves the endpoint sound either way. -/
theorem netRecvCb_lifetime {n : NetEndpoint} (h : NetSound n) {pcb : Pcb}
    (hsession : n.netSessionPcb = some pcb) (p : Option PbufChain) (errOk : Bool) :
    let r := netRecvCb lib pcb p errOk n
    NetSound r.1 ∧
      ((∀ e ∈ r.2 ++ [returnedFrom .recv pcb n r.1 .ok], e.Honours) ↔
        errOk = true ∧ ∃ chain, p = some chain ∧ n.QuietOn lib chain.flatten) := by
  have hlist : n.live = [pcb] := by
    rw [h.live, hsession]
    rfl
  have hlive : pcb ∈ n.live := by
    rw [hlist]
    exact List.mem_singleton_self pcb
  rcases netRecvCb_either lib h hsession p errOk with ⟨hquiet, hgoing, hrx, hev⟩ | ⟨hquiet, hclosed⟩
  · refine ⟨⟨?_, ?_, hrx⟩, iff_of_true ?_ hquiet⟩
    · rw [hgoing.live, hgoing.session, hlist]
      rfl
    · intro hnone
      rw [hgoing.session] at hnone
      cases hnone
    · intro e he
      rcases List.mem_append.mp he with he | he
      · exact hev e he
      · rw [List.mem_singleton.mp he]
        exact returned_honours (hgoing.live ▸ hlive)
  · exact ⟨hclosed.sound hlist, iff_of_false (recv_breaks hlive hclosed.gone) hquiet⟩

/-- An input keeps the contract exactly where nothing disturbs it. -/
theorem step_lifetime {n : NetEndpoint} (h : NetSound n) (i : NetInput) :
    NetSound (netStep lib n i).1 ∧
      ((∀ e ∈ (netStep lib n i).2, e.Honours) ↔ Undisturbed lib n i) := by
  by_cases hrecv : ∃ pcb p errOk, i = .recv pcb p errOk
  · obtain ⟨pcb, p, errOk, rfl⟩ := hrecv
    by_cases hlive : pcb ∈ n.live
    · have hsession : n.netSessionPcb = some pcb := by
        rw [h.live, Option.mem_toList] at hlive
        exact hlive
      obtain ⟨hsound, hiff⟩ := netRecvCb_lifetime lib h hsession p errOk
      unfold netStep Undisturbed
      dsimp only
      rw [if_neg (not_not_intro hlive)]
      exact ⟨hsound, hiff.trans ⟨fun h _ => h, fun h => h hlive⟩⟩
    · unfold netStep Undisturbed
      dsimp only
      rw [if_pos hlive]
      exact ⟨h, iff_of_true (by simp) fun hin => absurd hin hlive⟩
  · have hi : ∀ pcb p errOk, i ≠ .recv pcb p errOk :=
      fun pcb p errOk heq => hrecv ⟨pcb, p, errOk, heq⟩
    refine ⟨(quiet_keeps lib h hi).1, iff_of_true (quiet_honours lib h hi) ?_⟩
    cases i with
    | recv pcb p errOk => exact absurd rfl (hi pcb p errOk)
    | _ => trivial

/-- The lifetime of connections, over every run: whatever the order of
callbacks and polls, whatever frames arrive and however the send buffer
fares, the raw-API contract is kept exactly in the runs in which every
receive callback is undisturbed. -/
theorem connections_honoured_iff (device : Device) (radioRecord : Bool) (is : List NetInput) :
    let boot := netEndpointStart radioRecord (netEndpointInit device)
    (∀ e ∈ (netMachine lib).trace boot is, e.Honours) ↔
      (netMachine lib).StepsMeet (Undisturbed lib) boot is :=
  (netMachine lib).forall_trace_iff (I := NetSound) (G := Undisturbed lib) (P := NetEvent.Honours)
    (fun _ i h => (step_lifetime lib h i).1) (fun _ i h => (step_lifetime lib h i).2)
    (netSound_start device radioRecord) is

/-- The remote closes a connection: the callback aborts its pcb and
returns ERR_OK. -/
theorem remote_close_dishonoured :
    ¬∀ e ∈ (netMachine (toyCrypto none)).trace
        (netEndpointStart true (netEndpointInit benchDevice))
        [.accept (some 7) true, .recv 7 none true], e.Honours := by
  intro h
  exact absurd (h (.returned .recv 7 true .ok) (by decide)) (by decide)

end PicoBridge
