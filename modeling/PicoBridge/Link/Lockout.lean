/-
The one session slot of the TCP endpoint: exactly when a connection
attempt gets it.

# What the source promises

`net_accept_cb` aborts a connection while there is a session, under the
comment that a scanner cannot lock out the owner. `OwnerGetsIn` is that
promise, against a peer that never brings a handshake to its end.

# What frees the slot

Nothing but the peer's own close or failure, a poll that finds the
address gone, or bytes of the peer that close it (`Holds`): there is no
timeout, so a peer that sends nothing keeps the slot
(`silent_peer_locks_out`). `Machine.since_iff` makes of the step lemma
what decides an attempt in any run.
-/
import PicoBridge.Link.Output

namespace PicoBridge

open Lib (Machine)

variable (lib : Crypto)

-- ================================================================ the promise

/-- The peer brings no handshake to its end: each one that it sends leaves
the device without a session. -/
def Stranger (pcb : Pcb) (n : NetEndpoint) (is : List NetInput) : Prop :=
  ∀ r ∈ reportsOn lib pcb n is, IsHandshake r.call.data → r.after.noise.ready = false

/-- A connection attempt that `net_accept_cb` takes. -/
def Accepts (n : NetEndpoint) (pcb : Pcb) : Prop :=
  .returned .accept pcb false .ok ∈ (netStep lib n (.accept (some pcb) true)).2

instance (n : NetEndpoint) (pcb : Pcb) : Decidable (Accepts lib n pcb) :=
  inferInstanceAs (Decidable (_ ∈ _))

/-- A scanner cannot lock out the owner: while a first peer is a stranger,
a READY endpoint takes the attempt of a second one. -/
def OwnerGetsIn (device : Device) (radioRecord : Bool) (before after : List NetInput)
    (stranger owner : Pcb) : Prop :=
  let boot := netEndpointStart radioRecord (netEndpointInit device)
  let accepting := (netMachine lib).final boot before
  let opened := (netStep lib accepting (.accept (some stranger) true)).1
  let now := (netMachine lib).final opened after
  Accepts lib accepting stranger → Stranger lib stranger opened after →
    now.netState = .ready → owner ∉ now.live → Accepts lib now owner

-- =================================================================== the slot

/-- An input that leaves the slot taken: no close of the peer, no failure
of its connection, no bytes of it that close the session, and no poll
that finds a READY endpoint without an address. -/
def Holds (n : NetEndpoint) : NetInput → Prop
  | .recv pcb p errOk =>
      pcb ∈ n.live → errOk = true ∧ ∃ chain, p = some chain ∧ n.QuietOn lib chain.flatten
  | .err pcb => pcb ∉ n.live
  | .poll env => n.netState = .ready → env.haveIp = true
  | _ => True

/-- An input that takes the slot. -/
def Takes (i : NetInput) : Prop := ∃ pcb, i = .accept (some pcb) true

theorem NetSound.free {n : NetEndpoint} (h : NetSound n) (hfree : ¬n.netSessionPcb.isSome) :
    n.netSessionPcb = none ∧ n.live = [] := by
  have hnone : n.netSessionPcb = none := Option.not_isSome_iff_eq_none.mp hfree
  refine ⟨hnone, ?_⟩
  rw [h.live, hnone]
  rfl

/-- A poll of an open session. -/
theorem poll_session {n : NetEndpoint} {pcb : Pcb} (hsession : n.netSessionPcb = some pcb)
    (env : NetPollEnv) :
    (netEndpointPoll env n).1.netSessionPcb.isSome ↔ (n.netState = .ready → env.haveIp = true) := by
  have hopen : n.netSessionPcb.isSome := by
    rw [hsession]
    rfl
  unfold netEndpointPoll
  cases hstate : n.netState with
  | ready =>
      dsimp only
      cases env.haveIp with
      | true => exact iff_of_true hopen fun _ => rfl
      | false =>
          rw [hsession, if_neg Bool.false_ne_true]
          dsimp only
          rw [(netSessionClose_closed (.inl hsession)).session]
          exact iff_of_false Bool.false_ne_true fun h => Bool.false_ne_true (h rfl)
  | noRecord => exact iff_of_true hopen fun h => by cases h
  | retryWait =>
      dsimp only
      refine iff_of_true ?_ fun h => by cases h
      repeat' split
      all_goals exact hopen
  | connecting =>
      dsimp only
      refine iff_of_true ?_ fun h => by cases h
      cases env.haveIp with
      | false =>
          rw [if_neg Bool.false_ne_true, if_neg fun h => Bool.false_ne_true h.1]
          split <;> exact hopen
      | true =>
          rw [if_pos rfl]
          repeat' split
          all_goals exact hopen

/-- What an input leaves of the slot, where it is taken. -/
theorem slot_keeps {n : NetEndpoint} (h : NetSound n) (i : NetInput)
    (hopen : n.netSessionPcb.isSome) :
    (netStep lib n i).1.netSessionPcb.isSome ↔ Holds lib n i := by
  obtain ⟨pcb, hsession⟩ := Option.isSome_iff_exists.mp hopen
  have hlist : n.live = [pcb] := by
    rw [h.live, hsession]
    rfl
  cases i with
  | accept newpcb errOk =>
      refine iff_of_true ?_ trivial
      cases newpcb with
      | none => cases errOk <;> exact hopen
      | some q =>
          obtain ⟨-, -, ⟨hsame, -⟩ | ⟨hnone, -⟩⟩ := accept_keeps lib h q errOk
          · rw [hsame]
            exact hopen
          · rw [hnone] at hsession
            cases hsession
  | recv q p errOk =>
      by_cases hlive : q ∈ n.live
      · rw [hlist, List.mem_singleton] at hlive
        subst hlive
        have hstep : (netStep lib n (.recv q p errOk)).1 = (netRecvCb lib q p errOk n).1 := by
          unfold netStep
          dsimp only
          rw [if_neg (not_not_intro (by rw [hlist]; exact List.mem_singleton_self q))]
        rw [hstep]
        have hlive : q ∈ n.live := hlist ▸ List.mem_singleton_self q
        rcases netRecvCb_either lib h hsession p errOk with ⟨hquiet, hgoing, -⟩ | ⟨hquiet, hclosed⟩
        · rw [hgoing.session]
          exact iff_of_true rfl fun _ => hquiet
        · rw [hclosed.session]
          exact iff_of_false Bool.false_ne_true fun hholds => hquiet (hholds hlive)
      · have hstep : netStep lib n (.recv q p errOk) = (n, []) := if_pos hlive
        rw [hstep]
        exact iff_of_true hopen fun hin => absurd hin hlive
  | sent q room =>
      refine iff_of_true ?_ trivial
      unfold netStep
      dsimp only
      split
      · exact hopen
      · dsimp only
        rw [netSentCb_session]
        exact hopen
  | err q =>
      unfold netStep
      dsimp only
      by_cases hlive : q ∈ n.live
      · rw [if_neg (not_not_intro hlive)]
        exact iff_of_false Bool.false_ne_true (not_not_intro hlive)
      · rw [if_pos hlive]
        exact iff_of_true hopen hlive
  | poll env => exact poll_session hsession env
  | elsewhere device => exact iff_of_true hopen trivial

/-- And where it is free. -/
theorem slot_begins {n : NetEndpoint} (h : NetSound n) (i : NetInput)
    (hfree : ¬n.netSessionPcb.isSome) :
    (netStep lib n i).1.netSessionPcb.isSome ↔ Takes i := by
  obtain ⟨hnone, hempty⟩ := h.free hfree
  have hstays : (netStep lib n i).1.netSessionPcb = none → ¬Takes i →
      ((netStep lib n i).1.netSessionPcb.isSome ↔ Takes i) := by
    intro hafter htakes
    rw [hafter]
    exact iff_of_false Bool.false_ne_true htakes
  cases i with
  | accept newpcb errOk =>
      cases newpcb with
      | none =>
          refine hstays (by cases errOk <;> exact hnone) ?_
          rintro ⟨_, htakes⟩
          cases htakes
      | some q =>
          cases errOk with
          | true =>
              rw [accept_idle lib h hnone q]
              exact iff_of_true rfl ⟨q, rfl⟩
          | false =>
              refine hstays ?_ ?_
              · obtain ⟨-, -, ⟨hsame, -⟩ | ⟨-, hopen⟩⟩ := accept_keeps lib h q false
                · exact hsame.trans hnone
                · unfold netStep at hopen
                  dsimp only at hopen
                  rw [hempty, if_neg List.not_mem_nil] at hopen
                  exact absurd (hnone.symm.trans hopen) (by simp)
              · rintro ⟨_, htakes⟩
                cases htakes
  | recv q p errOk =>
      have hstep : netStep lib n (.recv q p errOk) = (n, []) :=
        if_pos (by rw [hempty]; exact List.not_mem_nil)
      exact hstays (by rw [hstep]; exact hnone) (by rintro ⟨_, htakes⟩; cases htakes)
  | sent q room =>
      have hstep : netStep lib n (.sent q room) = (n, []) :=
        if_pos (by rw [hempty]; exact List.not_mem_nil)
      exact hstays (by rw [hstep]; exact hnone) (by rintro ⟨_, htakes⟩; cases htakes)
  | err q =>
      have hstep : netStep lib n (.err q) = (n, []) :=
        if_pos (by rw [hempty]; exact List.not_mem_nil)
      exact hstays (by rw [hstep]; exact hnone) (by rintro ⟨_, htakes⟩; cases htakes)
  | poll env =>
      refine hstays ?_ (by rintro ⟨_, htakes⟩; cases htakes)
      rcases netEndpointPoll_cases env n with ⟨-, hsame⟩ | ⟨q, -, hclosed, -⟩
      · exact hsame.session.trans hnone
      · exact hclosed.session
  | elsewhere device => exact hstays hnone (by rintro ⟨_, htakes⟩; cases htakes)

/-- An attempt is taken exactly where the slot is free, by a pcb that is
not there yet. -/
theorem accepts_iff {n : NetEndpoint} (h : NetSound n) (pcb : Pcb) :
    Accepts lib n pcb ↔ pcb ∉ n.live ∧ ¬n.netSessionPcb.isSome := by
  unfold Accepts netStep
  dsimp only
  by_cases hlive : pcb ∈ n.live
  · rw [if_pos hlive]
    exact iff_of_false List.not_mem_nil fun hfresh => hfresh.1 hlive
  rw [if_neg hlive]
  cases hsession : n.netSessionPcb with
  | none =>
      have haccept : netAcceptCb (some pcb) true { n with live := pcb :: n.live }
          = (netResetFrame { n with netSessionPcb := some pcb, live := pcb :: n.live },
             ({ n with live := pcb :: n.live } : NetEndpoint).calls pcb
               [.arg, .recv, .err, .sent, .nagleDisable], .ok) := by
        unfold netAcceptCb
        dsimp only
        rw [if_neg (by rw [hsession, h.idle hsession]; simp)]
      rw [← hsession, haccept]
      refine iff_of_true (List.mem_append_right _ ?_) ⟨hlive, by simp [hsession]⟩
      simp [returnedFrom, netResetFrame]
  | some q =>
      have haccept : netAcceptCb (some pcb) true { n with live := pcb :: n.live }
          = ({ n with live := (pcb :: n.live).filter (· ≠ pcb) },
             ({ n with live := pcb :: n.live } : NetEndpoint).calls pcb [.abort], .abrt) := by
        unfold netAcceptCb
        dsimp only
        rw [if_pos (by rw [hsession]; exact .inl rfl)]
      rw [← hsession, haccept]
      refine iff_of_false ?_ fun hfree => hfree.2 (by simp [hsession])
      simp [returnedFrom, NetEndpoint.calls]

-- =================================================================== the runs

/-- When the owner gets in, over every run: a connection attempt is taken
exactly where every connection that was taken before has met, since then,
an input that does not hold the slot. -/
theorem attempt_accepted_iff (device : Device) (radioRecord : Bool) (is : List NetInput)
    (owner : Pcb) :
    let boot := netEndpointStart radioRecord (netEndpointInit device)
    let now := (netMachine lib).final boot is
    owner ∉ now.live →
      (Accepts lib now owner ↔
        ∀ before peer after, is = before ++ .accept (some peer) true :: after →
          Accepts lib ((netMachine lib).final boot before) peer →
          ¬(netMachine lib).StepsMeet (Holds lib)
            (netStep lib ((netMachine lib).final boot before) (.accept (some peer) true)).1 after) := by
  intro boot now hfresh
  have hboot : NetSound boot := netSound_start device radioRecord
  have hstep : ∀ n i, NetSound n → NetSound ((netMachine lib).step n i).1 :=
    fun n i h => (step_lifetime lib h i).1
  have hsince := @Machine.since_iff _ _ _ (netMachine lib) NetSound
    (fun n => n.netSessionPcb.isSome) (fun _ i => Takes i) (Holds lib)
    hstep (fun _ i h => slot_begins lib h i) (fun _ i h => slot_keeps lib h i) boot hboot
    (by cases radioRecord <;> exact Bool.false_ne_true) is
  have hreached : ∀ js, NetSound ((netMachine lib).final boot js) :=
    (netMachine lib).final_inv hstep hboot
  rw [accepts_iff lib (hreached is), and_iff_right hfresh, hsince]
  constructor
  · intro hnever before peer after hsplit haccepts hmeet
    have hfree := ((accepts_iff lib (hreached before) peer).mp haccepts).2
    exact hnever ⟨before, _, after, hsplit, hfree, ⟨peer, rfl⟩, hmeet⟩
  · rintro hall ⟨before, i, after, hsplit, hfree, ⟨peer, rfl⟩, hmeet⟩
    have hempty := ((hreached before).free hfree).2
    refine hall before peer after hsplit ((accepts_iff lib (hreached before) peer).mpr ?_) hmeet
    exact ⟨by rw [hempty]; exact List.not_mem_nil, hfree⟩

/-- An endpoint with a radio record that connects and gets an address. -/
def benchJoins : List NetInput :=
  [.poll ⟨0, false, true, true, true, false⟩, .poll ⟨1000, true, true, true, true, false⟩]

theorem attempt_accepted_iff_bench :
    let lib := toyCrypto none
    let boot := netEndpointStart true (netEndpointInit benchDevice)
    let is := benchJoins ++ [.accept (some 7) true, .err 7]
    let now := (netMachine lib).final boot is
    Accepts lib now 8 ↔
      ∀ before peer after, is = before ++ .accept (some peer) true :: after →
        Accepts lib ((netMachine lib).final boot before) peer →
        ¬(netMachine lib).StepsMeet (Holds lib)
          (netStep lib ((netMachine lib).final boot before) (.accept (some peer) true)).1 after :=
  attempt_accepted_iff (toyCrypto none) benchDevice true _ 8 (by decide +kernel)

/-- A peer that connects and sends nothing for an hour keeps the owner out
of a READY endpoint. -/
theorem silent_peer_locks_out :
    ¬OwnerGetsIn (toyCrypto none) benchDevice true benchJoins
      [.poll ⟨3601000, true, true, true, true, false⟩] 7 8 := by
  intro h
  have haccepted := h (by decide +kernel) (fun r hr => absurd hr List.not_mem_nil)
    (by decide +kernel) (by decide +kernel)
  revert haccepted
  decide +kernel

end PicoBridge
