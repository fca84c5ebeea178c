/-
How often `net_endpoint_poll` tries to associate, in true time.

# The retry, by itself

Of the endpoint's statics only `net_state`, `net_retry_at_ms` and
`net_retry_delay_ms` decide when the radio is asked to join (`Retry`), and
only the poll writes them: lwIP's callbacks stutter (`callback_polled`), and
a poll is one `RetryMove`. What follows is about `RetryMove`, with the true
time beside the 32-bit clock.

# The two directions

The deadline of a wait lies at most 30000 ms ahead when it is set, so a
poll that comes too early is told so by the sign of the difference however
long the polls were apart: no attempt is early (`attempts_spaced`), and no
assumption on the polls is needed. That a poll is not told so for ever is
only true when the polls are less than half a turn of the clock apart, and
then a radio that finds an address has the endpoint READY two polls after
the longest wait (`endpoint_returns`).
-/
import PicoBridge.Lib.Clock
import PicoBridge.Link.Radio

namespace PicoBridge

open Lib (Machine)
open Lib.Clock

-- ================================================================== the retry

/-- The statics of the retry. -/
structure Retry where
  state : NetState
  atMs : UInt32
  delayMs : UInt32

def NetEndpoint.retry (n : NetEndpoint) : Retry := ⟨n.netState, n.netRetryAtMs, n.netRetryDelayMs⟩

/-- The statics that only `net_endpoint_poll` writes. -/
def NetEndpoint.polled (n : NetEndpoint) : Retry × Bool × Bool :=
  (n.retry, n.netListenerOk, n.netListener)

/-- `net_endpoint_wifi_up`. -/
def netEndpointWifiUp (n : NetEndpoint) : Bool := n.netState == .ready && n.netListenerOk

/-- The signed comparison of `net_endpoint_poll`. -/
def Due (nowMs atMs : UInt32) : Prop := 0 ≤ (nowMs - atMs).toInt32

/-- Whether the radio was asked to join. -/
def WifiReport.attempts (r : WifiReport) : Bool :=
  r.calls.any fun
    | .connect _ _ => true
    | _ => false

/-- What a poll does to the retry, and whether it is an attempt. -/
inductive RetryMove (nowMs : UInt32) : Retry → Bool → Retry → Prop
  | stays (w : Retry) (hearly : w.state = .retryWait → ¬Due nowMs w.atMs) :
      RetryMove nowMs w false w
  | found {atMs d : UInt32} (hdue : Due nowMs atMs) :
      RetryMove nowMs ⟨.retryWait, atMs, d⟩ false ⟨.connecting, nowMs + netConnectTimeoutMs, d⟩
  | cleared {atMs d : UInt32} (hdue : Due nowMs atMs) :
      RetryMove nowMs ⟨.retryWait, atMs, d⟩ false ⟨.noRecord, atMs, d⟩
  | refused {atMs d : UInt32} (hdue : Due nowMs atMs) :
      RetryMove nowMs ⟨.retryWait, atMs, d⟩ true ⟨.retryWait, nowMs + d, netBackOff d⟩
  | taken {atMs d : UInt32} (hdue : Due nowMs atMs) :
      RetryMove nowMs ⟨.retryWait, atMs, d⟩ true ⟨.connecting, nowMs + netConnectTimeoutMs, d⟩
  | joined {atMs d : UInt32} : RetryMove nowMs ⟨.connecting, atMs, d⟩ false ⟨.ready, atMs, 3000⟩
  | late {atMs d : UInt32} (hdue : Due nowMs atMs) :
      RetryMove nowMs ⟨.connecting, atMs, d⟩ false ⟨.retryWait, nowMs + d, netBackOff d⟩
  | lost {atMs d : UInt32} :
      RetryMove nowMs ⟨.ready, atMs, d⟩ false ⟨.connecting, nowMs + netConnectTimeoutMs, d⟩

/-- A poll is a move. -/
theorem wifiPoll_moves (env : WifiEnv) (n : NetEndpoint) :
    RetryMove env.nowMs n.retry (wifiPoll env n).2.attempts (wifiPoll env n).1.retry := by
  obtain ⟨device, state, atMs, d, listenerOk, listener, session, rx, pendingTx, live⟩ := n
  unfold wifiPoll WifiReport.attempts netRadioCalls netEndpointPoll netRetryLater
    WifiEnv.reading
  dsimp only
  cases state with
  | noRecord => exact .stays _ (by simp [NetEndpoint.retry])
  | ready =>
      dsimp only
      cases env.haveIp with
      | true => exact .stays _ (by simp [NetEndpoint.retry])
      | false => cases session <;> exact .lost
  | retryWait =>
      dsimp only
      by_cases hearly : (env.nowMs - atMs).toInt32 < 0
      · rw [if_pos hearly, if_pos hearly]
        exact .stays _ fun _ => Int32.not_le.mpr hearly
      rw [if_neg hearly, if_neg hearly]
      have hdue : Due env.nowMs atMs := Int32.not_lt.mp hearly
      cases env.haveIp with
      | true => exact .found hdue
      | false =>
          rw [if_neg Bool.false_ne_true, if_neg Bool.false_ne_true]
          cases radioProvisionFlashRead device.radio with
          | none => exact .cleared hdue
          | some cfg =>
              cases env.connectOk with
              | true => exact .taken hdue
              | false => exact .refused hdue
  | connecting =>
      dsimp only
      by_cases hup : env.haveIp = true ∧ (listener || env.listenOk) = true
      · rw [if_pos hup, hup.1, hup.2]
        exact .joined
      have hnone : (if 0 ≤ (env.nowMs - atMs).toInt32 ∧ env.linkBelowJoin = true then
          [RadioCall.disableSta, .enableSta] else []).any
            (fun | .connect _ _ => true | _ => false) = false := by
        split <;> rfl
      rw [if_neg hup, hnone]
      have hwaits : ∀ m : NetEndpoint, m.netState = .connecting → m.netRetryAtMs = atMs →
          m.netRetryDelayMs = d → RetryMove env.nowMs ⟨.connecting, atMs, d⟩ false
            (if 0 ≤ (env.nowMs - m.netRetryAtMs).toInt32 ∧ env.linkBelowJoin = true then
              ({ m with
                  netState := .retryWait
                  netRetryAtMs := env.nowMs + m.netRetryDelayMs
                  netRetryDelayMs := netBackOff m.netRetryDelayMs }, ([] : List NetEvent))
            else (m, [])).1.retry := by
        rintro m hstate rfl rfl
        split
        · next hlate => exact .late hlate.1
        · show RetryMove env.nowMs _ false ⟨m.netState, _, _⟩
          rw [hstate]
          exact .stays _ (by simp)
      cases hip : env.haveIp with
      | false =>
          rw [if_neg Bool.false_ne_true, if_neg fun h => Bool.false_ne_true h.1]
          exact hwaits _ rfl rfl rfl
      | true =>
          have hclosed : (listener || env.listenOk) = false := by simpa [hip] using hup
          rw [hclosed, if_pos rfl, if_neg fun h => Bool.false_ne_true h.2]
          exact hwaits _ rfl rfl rfl

-- ============================================================== the callbacks

@[simp] theorem netSessionClose_polled (pcb : Option Pcb) (n : NetEndpoint) :
    (netSessionClose pcb n).1.polled = n.polled := by
  cases pcb <;> rfl

@[simp] theorem netSentCb_polled (pcb : Pcb) (room : TxRoom) (n : NetEndpoint) :
    (netSentCb pcb room n).1.polled = n.polled := by
  rw [netSentCb_keeps]
  rfl

variable (lib : Crypto)

@[simp] theorem netProcessFrame_polled (pcb : Pcb) (env : FrameEnv) (room : TxRoom)
    (n : NetEndpoint) : (netProcessFrame lib pcb env room n).1.polled = n.polled := by
  obtain ⟨-, hr⟩ | ⟨-, -, hr, -⟩ | ⟨resp, -, -, hr⟩ := netProcessFrame_cases lib pcb env room n
  · rw [hr]
    rfl
  · rw [hr, netSessionClose_polled]
    rfl
  · rw [hr, netSentCb_polled]
    rfl

@[simp] theorem netRxByte_polled (pcb : Pcb) (x : RxByte) (n : NetEndpoint) :
    (netRxByte lib pcb x n).1.polled = n.polled := by
  unfold netRxByte
  dsimp only
  split
  · rfl
  · split
    · apply netProcessFrame_polled
    · rfl

@[simp] theorem netRxSegment_polled (pcb : Pcb) (xs : List RxByte) : ∀ (overflow : Bool)
    (n : NetEndpoint), (netRxSegment lib pcb xs overflow n).1.polled = n.polled := by
  induction xs with
  | nil => exact fun _ _ => rfl
  | cons x xs ih =>
      intro overflow n
      rw [netRxSegment]
      cases (netRxByte lib pcb x n).2.2 <;> simp [ih]

@[simp] theorem netRxChain_polled (pcb : Pcb) (chain : PbufChain) : ∀ n : NetEndpoint,
    (netRxChain lib pcb chain n).1.polled = n.polled := by
  induction chain with
  | nil => exact fun _ => rfl
  | cons segment chain ih =>
      intro n
      rw [netRxChain]
      dsimp only
      split
      · apply netRxSegment_polled
      · rw [ih, netRxSegment_polled]

@[simp] theorem netRecvCb_polled (pcb : Pcb) (p : Option PbufChain) (errOk : Bool)
    (n : NetEndpoint) : (netRecvCb lib pcb p errOk n).1.polled = n.polled := by
  unfold netRecvCb
  split
  · rfl
  · cases errOk with
    | false => apply netSessionClose_polled
    | true =>
        cases p with
        | none => apply netSessionClose_polled
        | some chain =>
            dsimp only
            split <;> simp

/-- A callback leaves them as they are. -/
theorem callback_polled (n : NetEndpoint) {i : NetInput} (hi : ∀ env, i ≠ .poll env) :
    (netStep lib n i).1.polled = n.polled := by
  cases i with
  | poll env => exact absurd rfl (hi env)
  | elsewhere device => rfl
  | recv pcb p errOk =>
      unfold netStep
      dsimp only
      split
      · rfl
      · apply netRecvCb_polled
  | sent pcb room =>
      unfold netStep
      dsimp only
      split
      · rfl
      · apply netSentCb_polled
  | err pcb =>
      unfold netStep
      dsimp only
      split <;> rfl
  | accept newpcb errOk =>
      cases newpcb with
      | none => cases errOk <;> rfl
      | some pcb =>
          unfold netStep
          dsimp only
          split
          · rfl
          · obtain hr | hr | ⟨-, hr⟩ :=
              netAcceptCb_cases pcb errOk { n with live := pcb :: n.live }
            · rw [hr]
              rfl
            · rw [hr]
              rfl
            · rw [hr]
              rfl

-- ============================================================== the true time

/-- The endpoint, and the time of its last poll. -/
structure TimedEndpoint where
  endpoint : NetEndpoint
  polledAt : Nat

/-- A poll, at a time, or a callback. -/
inductive RetryInput
  | poll (env : WifiEnv) (now : Nat)
  | callback (i : NetInput)

/-- The endpoint beside the true time: a poll is seen with its time. -/
def retryMachine : Machine TimedEndpoint RetryInput (Nat × WifiReport) where
  step s
    | .poll env now =>
        (⟨(wifiPoll env s.endpoint).1, now⟩, [(now, (wifiPoll env s.endpoint).2)])
    | .callback i => (⟨(netStep lib s.endpoint i).1, s.polledAt⟩, [])

/-- The endpoint as `main` starts it. -/
def retryBoot (device : Device) : TimedEndpoint :=
  ⟨netEndpointStart (radioProvisionFlashRead device.radio).isSome (netEndpointInit device), 0⟩

/-- `usb_now_ms` shows the time, which does not go back. -/
def PollClock (s : TimedEndpoint) : RetryInput → Prop
  | .poll env now => env.nowMs = reading now ∧ s.polledAt ≤ now
  | .callback i => ∀ env, i ≠ .poll env

/-- The attempts since the endpoint was last READY, and when the last one
of all ended: at once where the radio refused it, and else when its
time to connect did. -/
structure Tally where
  count : Nat
  ended : Option Nat

/-- What a poll adds. -/
def Tally.note (y : Tally) (now : Nat) (attempt : Bool) (after : NetState) : Tally :=
  if attempt then
    ⟨y.count + 1,
      some (if after = .connecting then now + netConnectTimeoutMs.toNat else now)⟩
  else if after = .ready then { y with count := 0 }
  else y

/-- The attempts among the reports. -/
def tally (reports : List (Nat × WifiReport)) : Tally :=
  reports.foldl (fun y e => y.note e.1 e.2.attempts e.2.netState) ⟨0, none⟩

/-- How long the endpoint waits after an attempt that `k` others came
before. -/
def backOffMs (k : Nat) : Nat := min (3000 * 2 ^ k) netRetryMaxMs.toNat

-- ============================================================= the invariant

/-- The deadline is the reading of a time, at most so far ahead. -/
def Retry.Set (w : Retry) (now ahead : Nat) (after : Nat → Prop) : Prop :=
  ∃ due, w.atMs = reading due ∧ due ≤ now + ahead ∧ after due

/-- What the deadline and the delay are to the attempts before. -/
def Pauses (w : Retry) (now : Nat) (y : Tally) : Prop :=
  match w.state with
  | .noRecord => True
  | .retryWait => backOffMs y.count ≤ w.delayMs.toNat ∧
      w.Set now netRetryMaxMs.toNat fun due =>
        ∀ t ∈ y.ended, t + backOffMs (y.count - 1) ≤ due
  | .connecting => backOffMs (y.count - 1) ≤ w.delayMs.toNat ∧
      w.Set now netConnectTimeoutMs.toNat fun due => ∀ t ∈ y.ended, t ≤ due
  | .ready => y.count = 0 ∧ ∀ t ∈ y.ended, t ≤ now + netConnectTimeoutMs.toNat

/-- The invariant of the retry: its delay stays in its bounds. -/
structure Paced (w : Retry) (now : Nat) (y : Tally) : Prop where
  least : 3000 ≤ w.delayMs.toNat
  most : w.delayMs.toNat ≤ netRetryMaxMs.toNat
  pauses : Pauses w now y

theorem netRetryMaxMs_toNat : netRetryMaxMs.toNat = 30000 := rfl
theorem netConnectTimeoutMs_toNat : netConnectTimeoutMs.toNat = 20000 := rfl

theorem backOffMs_zero : backOffMs 0 = 3000 := rfl

theorem backOffMs_succ (k : Nat) : backOffMs (k + 1) = min (2 * backOffMs k) 30000 := by
  unfold backOffMs
  rw [netRetryMaxMs_toNat, pow_succ]
  omega

theorem backOffMs_le (k : Nat) : backOffMs k ≤ 30000 := Nat.min_le_right _ _

theorem backOffMs_mono {j k : Nat} (h : j ≤ k) : backOffMs j ≤ backOffMs k := by
  induction h with
  | refl => exact le_rfl
  | step _ ih =>
      apply ih.trans
      have := backOffMs_le ‹_›
      rw [backOffMs_succ]
      omega

theorem netBackOff_toNat {d : UInt32} (h : d.toNat ≤ 30000) :
    (netBackOff d).toNat = min (2 * d.toNat) 30000 := by
  have htwo : (d * 2).toNat = 2 * d.toNat := by
    rw [UInt32.toNat_mul, show (2 : UInt32).toNat = 2 from rfl]
    omega
  have hmost : d < netRetryMaxMs ↔ d.toNat < 30000 := UInt32.lt_iff_toNat_lt
  have hover : d * 2 > netRetryMaxMs ↔ 30000 < 2 * d.toNat := by
    rw [← htwo]
    exact UInt32.lt_iff_toNat_lt
  unfold netBackOff
  by_cases hlt : d < netRetryMaxMs
  · rw [if_pos hlt]
    by_cases hgt : d * 2 > netRetryMaxMs
    · rw [if_pos hgt, netRetryMaxMs_toNat]
      rw [hover] at hgt
      omega
    · rw [if_neg hgt, htwo]
      rw [hover] at hgt
      omega
  · rw [if_neg hlt]
    rw [hmost] at hlt
    omega

/-- A poll that is let through comes at the deadline or later. -/
theorem Retry.Set.passed {w : Retry} {now ahead t : Nat} {after : Nat → Prop}
    (h : w.Set now ahead after) (hahead : ahead ≤ 30000) (hle : now ≤ t)
    (hdue : Due (reading t) w.atMs) : ∃ due, due ≤ t ∧ after due := by
  obtain ⟨due, hat, hnear, hafter⟩ := h
  refine ⟨due, ?_, hafter⟩
  by_contra hlt
  have hearly := due_of_near (s := due) (t := t) (by omega) (by omega)
  rw [← hat] at hearly
  exact Int32.not_lt.mpr hdue hearly

/-- A deadline that is set anew. -/
theorem Retry.set_ahead {state : NetState} {d delay : UInt32} {t ahead : Nat}
    {after : Nat → Prop} (hd : d.toNat ≤ ahead) (h : after (t + d.toNat)) :
    (⟨state, reading t + d, delay⟩ : Retry).Set t ahead after :=
  ⟨t + d.toNat, reading_add t d, by omega, h⟩

theorem Retry.Set.mono {w : Retry} {now t ahead : Nat} {after : Nat → Prop}
    (h : w.Set now ahead after) (hle : now ≤ t) : w.Set t ahead after := by
  obtain ⟨due, hat, hnear, hafter⟩ := h
  exact ⟨due, hat, by omega, hafter⟩

variable {w w' : Retry} {now t : Nat} {y : Tally} {attempt : Bool}

/-- An attempt comes after its pause. -/
theorem Paced.spaced (h : Paced w now y) (hle : now ≤ t)
    (hmove : RetryMove (reading t) w true w') :
    ∀ e ∈ y.ended, e + backOffMs (y.count - 1) ≤ t := by
  intro e he
  cases hmove with
  | refused hdue =>
      obtain ⟨due, hpast, hafter⟩ := h.pauses.2.passed le_rfl hle hdue
      exact (hafter e he).trans hpast
  | taken hdue =>
      obtain ⟨due, hpast, hafter⟩ := h.pauses.2.passed le_rfl hle hdue
      exact (hafter e he).trans hpast

/-- The doubled delay covers the next wait. -/
theorem netBackOff_covers {d : UInt32} {k : Nat} (hleast : 3000 ≤ d.toNat)
    (hmost : d.toNat ≤ 30000) (hcover : backOffMs (k - 1) ≤ d.toNat) :
    backOffMs k ≤ (netBackOff d).toNat := by
  rw [netBackOff_toNat hmost]
  cases k with
  | zero =>
      rw [backOffMs_zero]
      omega
  | succ k =>
      rw [Nat.add_sub_cancel] at hcover
      rw [backOffMs_succ]
      omega

theorem netBackOff_bounds {d : UInt32} (hleast : 3000 ≤ d.toNat) (hmost : d.toNat ≤ 30000) :
    3000 ≤ (netBackOff d).toNat ∧ (netBackOff d).toNat ≤ 30000 := by
  rw [netBackOff_toNat hmost]
  omega

/-- What a poll keeps. -/
theorem Paced.step (h : Paced w now y) (hle : now ≤ t)
    (hmove : RetryMove (reading t) w attempt w') : Paced w' t (y.note t attempt w'.state) := by
  obtain ⟨hleast, hmost, hpauses⟩ := h
  have hmax := netRetryMaxMs_toNat
  have htimeout := netConnectTimeoutMs_toNat
  cases hmove with
  | stays =>
      refine ⟨hleast, hmost, ?_⟩
      obtain ⟨state, atMs, d⟩ := w
      cases state with
      | noRecord => trivial
      | retryWait => exact ⟨hpauses.1, hpauses.2.mono hle⟩
      | connecting => exact ⟨hpauses.1, hpauses.2.mono hle⟩
      | ready => exact ⟨rfl, fun e he => (hpauses.2 e he).trans (by omega)⟩
  | found hdue =>
      obtain ⟨hcover, hset⟩ := hpauses
      obtain ⟨due, hpast, hafter⟩ := hset.passed le_rfl hle hdue
      refine ⟨hleast, hmost, (backOffMs_mono (Nat.sub_le _ _)).trans hcover, ?_⟩
      apply Retry.set_ahead le_rfl
      intro e he
      have := hafter e he
      omega
  | cleared hdue => exact ⟨hleast, hmost, trivial⟩
  | refused hdue =>
      obtain ⟨hfloor, hceil⟩ := netBackOff_bounds hleast hmost
      refine ⟨hfloor, hceil, netBackOff_covers hleast hmost hpauses.1, ?_⟩
      apply Retry.set_ahead hmost
      intro e he
      cases he
      exact Nat.add_le_add_left hpauses.1 t
  | taken hdue =>
      refine ⟨hleast, hmost, hpauses.1, ?_⟩
      apply Retry.set_ahead le_rfl
      intro e he
      cases he
      exact le_rfl
  | joined =>
      obtain ⟨-, due, -, hnear, hafter⟩ := hpauses
      refine ⟨le_rfl, show (3000 : UInt32).toNat ≤ 30000 by decide, rfl, fun e he => ?_⟩
      have := hafter e he
      omega
  | late hdue =>
      obtain ⟨hcover, hset⟩ := hpauses
      obtain ⟨due, hpast, hafter⟩ := hset.passed (by omega) hle hdue
      obtain ⟨hfloor, hceil⟩ := netBackOff_bounds hleast hmost
      refine ⟨hfloor, hceil, netBackOff_covers hleast hmost hcover, ?_⟩
      apply Retry.set_ahead hmost
      intro e he
      have hended : e ≤ due := hafter e he
      have hpause : backOffMs (y.count - 1) ≤ _ := hcover
      show e + backOffMs (y.count - 1) ≤ _
      omega
  | lost =>
      obtain ⟨hcount, hnear⟩ := hpauses
      refine ⟨hleast, hmost, ?_, ?_⟩
      · show backOffMs (y.count - 1) ≤ _
        rw [hcount]
        exact hleast
      · apply Retry.set_ahead le_rfl
        intro e he
        have := hnear e he
        omega

-- ================================================================== the runs

theorem tally_append (reports : List (Nat × WifiReport)) (now : Nat) (r : WifiReport) :
    tally (reports ++ [(now, r)]) = (tally reports).note now r.attempts r.netState := by
  unfold tally
  rw [List.foldl_append]
  rfl

/-- The invariant of a run. -/
def Pacing (s : TimedEndpoint) (reports : List (Nat × WifiReport)) : Prop :=
  Paced s.endpoint.retry s.polledAt (tally reports)

theorem boot_pacing (device : Device) : Pacing (retryBoot device) [] := by
  have hfloor : 3000 ≤ (3000 : UInt32).toNat := le_rfl
  have hceil : (3000 : UInt32).toNat ≤ netRetryMaxMs.toNat := by decide
  unfold Pacing retryBoot
  cases (radioProvisionFlashRead device.radio).isSome with
  | false => exact ⟨hfloor, hceil, trivial⟩
  | true =>
      refine ⟨hfloor, hceil, le_rfl, 0, rfl, Nat.zero_le _, fun e he => ?_⟩
      cases he

theorem pacing_step {s : TimedEndpoint} {reports : List (Nat × WifiReport)} {i : RetryInput}
    (h : Pacing s reports) (hi : PollClock s i) :
    Pacing ((retryMachine lib).step s i).1 (reports ++ ((retryMachine lib).step s i).2) := by
  cases i with
  | poll env now =>
      obtain ⟨hnow, hle⟩ := hi
      have hmove := wifiPoll_moves env s.endpoint
      rw [hnow] at hmove
      have hstep : Paced _ now _ := h.step hle hmove
      show Paced _ now (tally (reports ++ [(now, (wifiPoll env s.endpoint).2)]))
      rw [tally_append]
      exact hstep
  | callback i =>
      show Paced (netStep lib s.endpoint i).1.retry s.polledAt (tally (reports ++ []))
      have hkept : (netStep lib s.endpoint i).1.retry = s.endpoint.retry :=
        congrArg Prod.fst (callback_polled lib s.endpoint hi)
      rw [hkept, List.append_nil]
      exact h

/-- The pauses between two attempts, over every life of polls, callbacks
and commands: an attempt comes no earlier than the last one ended, plus
3000 ms doubled with each attempt before that one since the endpoint was
READY, up to 30000 ms. -/
theorem attempts_spaced (device : Device) (is : List RetryInput)
    (hmeet : (retryMachine lib).StepsMeet PollClock (retryBoot device) is) :
    ∀ pre t r post, (retryMachine lib).trace (retryBoot device) is = pre ++ (t, r) :: post →
      r.attempts = true →
      ∀ e ∈ (tally pre).ended, e + backOffMs ((tally pre).count - 1) ≤ t := by
  intro pre t r post htrace hattempt
  have hpast := (retryMachine lib).trace_past (G := PollClock) (P := Pacing)
    (Q := fun pre o => o.2.attempts = true →
      ∀ e ∈ (tally pre).ended, e + backOffMs ((tally pre).count - 1) ≤ o.1)
    (fun s h i hP hG => pacing_step lib hP hG) ?_ is (retryBoot device) [] (boot_pacing device)
    hmeet pre (t, r) post htrace
  · exact hpast hattempt
  intro s reports i hP hG pre o post hsplit hattempt
  cases i with
  | callback i => exact absurd hsplit (by simp [retryMachine])
  | poll env now =>
      obtain ⟨rfl, rfl, -⟩ := Machine.singleton_split hsplit
      obtain ⟨hnow, hle⟩ := hG
      have hmove := wifiPoll_moves env s.endpoint
      rw [hnow, hattempt] at hmove
      rw [List.append_nil]
      exact Paced.spaced hP hle hmove

/-- A radio that refuses, asked when its clock starts and a turn and the
pause later. -/
def refusals : List RetryInput :=
  [.poll ⟨0, false, false, true, true⟩ 0,
   .poll ⟨2999, false, false, true, true⟩ (2 ^ 32 + 2999),
   .poll ⟨3000, false, false, true, true⟩ (2 ^ 32 + 3000)]

/-- The poll of a wait that is over, with a radio that refuses. -/
theorem wifiPoll_refused (env : WifiEnv) {n : NetEndpoint} {cfg : RadioConfig}
    (hstate : n.netState = .retryWait) (hdue : Due env.nowMs n.netRetryAtMs)
    (hip : env.haveIp = false) (hconnect : env.connectOk = false)
    (hread : radioProvisionFlashRead n.device.radio = some cfg) :
    wifiPoll env n = (netRetryLater env.nowMs n,
      ⟨n.device.radio, [.enableSta, .connect cfg.ssid cfg.psk], .retryWait, n.netListenerOk⟩) := by
  unfold wifiPoll netEndpointPoll netRadioCalls WifiEnv.reading
  dsimp only
  rw [hstate]
  dsimp only
  rw [if_neg (Int32.not_lt.mpr hdue), if_neg (Int32.not_lt.mpr hdue), hip, hconnect, hread]
  simp [netRetryLater, hstate]

/-- The poll of a wait that is not. -/
theorem wifiPoll_early (env : WifiEnv) {n : NetEndpoint} (hstate : n.netState = .retryWait)
    (hearly : (env.nowMs - n.netRetryAtMs).toInt32 < 0) :
    wifiPoll env n = (n, ⟨n.device.radio, [], .retryWait, n.netListenerOk⟩) := by
  unfold wifiPoll netEndpointPoll netRadioCalls WifiEnv.reading
  dsimp only
  rw [hstate]
  dsimp only
  rw [if_pos hearly, if_pos hearly, hstate]

/-- An endpoint with a record, as it starts. -/
def waiting : NetEndpoint := { netEndpointInit radioDevice with netState := .retryWait }

theorem boot_waiting : retryBoot radioDevice = ⟨waiting, 0⟩ := by
  unfold retryBoot
  rw [radioDevice_reads]
  rfl

theorem attempts_spaced_wrap : ∃ pre r,
    (retryMachine (toyCrypto none)).trace (retryBoot radioDevice) refusals
      = pre ++ (2 ^ 32 + 3000, r) :: [] ∧
    r.attempts = true ∧ (tally pre).ended = some 0 ∧ 0 + 3000 ≤ 2 ^ 32 + 3000 := by
  obtain ⟨cfg, hcfg⟩ := Option.isSome_iff_exists.mp radioDevice_reads
  have hfirst := wifiPoll_refused ⟨0, false, false, true, true⟩ (n := waiting) rfl
    (show (0 : Int32) ≤ ((0 : UInt32) - 0).toInt32 by decide) rfl rfl hcfg
  have hsecond := wifiPoll_early ⟨2999, false, false, true, true⟩
    (n := netRetryLater 0 waiting) rfl (show ((2999 : UInt32) - 3000).toInt32 < 0 by decide)
  have hthird := wifiPoll_refused ⟨3000, false, false, true, true⟩
    (n := netRetryLater 0 waiting) rfl
    (show (0 : Int32) ≤ ((3000 : UInt32) - 3000).toInt32 by decide) rfl rfl hcfg
  have htrace : (retryMachine (toyCrypto none)).trace (retryBoot radioDevice) refusals
      = [(0, ⟨radioDevice.radio, [.enableSta, .connect cfg.ssid cfg.psk], .retryWait, false⟩),
          (2 ^ 32 + 2999, ⟨radioDevice.radio, [], .retryWait, false⟩)] ++
        (2 ^ 32 + 3000, ⟨radioDevice.radio, [.enableSta, .connect cfg.ssid cfg.psk], .retryWait,
          false⟩) :: [] := by
    rw [boot_waiting]
    unfold refusals
    simp only [Machine.trace_cons, Machine.trace_nil, retryMachine, hfirst, hsecond, hthird]
    rfl
  refine ⟨_, _, htrace, rfl, rfl, ?_⟩
  refine attempts_spaced (toyCrypto none) radioDevice refusals ?_ _ _ _ _ htrace rfl 0 rfl
  rw [boot_waiting]
  exact ⟨⟨rfl, by decide⟩, ⟨rfl, by decide⟩, ⟨rfl, by decide⟩, trivial⟩

-- ============================================================== the recovery

/-- The clock of the polls, which come less than half a turn apart. -/
def PollsOn (s : TimedEndpoint) (i : RetryInput) : Prop :=
  PollClock s i ∧ ∀ env now, i = .poll env now → now < s.polledAt + 2 ^ 31

/-- The interface has an address and the listener opens. -/
def Finds (s : TimedEndpoint) (i : RetryInput) : Prop :=
  PollsOn s i ∧ ∀ env now, i = .poll env now → env.haveIp = true ∧ env.listenOk = true

/-- A wait ends at a time of this kind, and no earlier than now. -/
def Awaits (w : Retry) (now : Nat) (ends : Nat → Prop) : Prop :=
  w.state = .retryWait → w.Set now netRetryMaxMs.toNat fun due => now ≤ due ∧ ends due

variable {ends : Nat → Prop}

/-- A poll that is not let through comes before the deadline. -/
theorem Awaits.stays (h : Awaits w now ends) (hle : now ≤ t) (hgap : t < now + 2 ^ 31)
    (hearly : w.state = .retryWait → ¬Due (reading t) w.atMs) : Awaits w t ends := by
  intro hwait
  have hmax := netRetryMaxMs_toNat
  have hnegative := Int32.not_le.mp (hearly hwait)
  obtain ⟨due, hat, hnear, hset, hends⟩ := h hwait
  rw [hat, due_iff (by omega) (by omega)] at hnegative
  exact ⟨due, hat, by omega, hnegative.le, hends⟩

theorem Awaits.step (h : Awaits w now fun _ => True) (hmost : w.delayMs.toNat ≤ 30000)
    (hle : now ≤ t) (hgap : t < now + 2 ^ 31) (hmove : RetryMove (reading t) w attempt w') :
    Awaits w' t fun _ => True := by
  cases hmove with
  | stays _ hearly => exact h.stays hle hgap hearly
  | refused hdue => exact fun _ => Retry.set_ahead hmost ⟨Nat.le_add_right _ _, trivial⟩
  | late hdue => exact fun _ => Retry.set_ahead hmost ⟨Nat.le_add_right _ _, trivial⟩
  | _ => exact fun hwait => by cases hwait

/-- A poll that finds an address: out of the wait once it is over, and
then READY. -/
theorem wifiPoll_finds {env : WifiEnv} (hip : env.haveIp = true) (hlisten : env.listenOk = true)
    (n : NetEndpoint) :
    let m := (wifiPoll env n).1
    (n.netState = .retryWait → ¬Due env.nowMs n.netRetryAtMs → m = n) ∧
    (n.netState = .retryWait → Due env.nowMs n.netRetryAtMs → m.netState = .connecting) ∧
    (n.netState = .connecting → netEndpointWifiUp m = true) ∧
    (n.netState = .ready → m = n) := by
  unfold wifiPoll netEndpointPoll WifiEnv.reading
  refine ⟨fun hstate hearly => ?_, fun hstate hdue => ?_, fun hstate => ?_, fun hstate => ?_⟩
  · rw [hstate]
    dsimp only
    rw [if_pos (Int32.not_le.mp hearly)]
  · rw [hstate]
    dsimp only
    rw [if_neg (Int32.not_lt.mpr hdue), if_pos hip]
  · rw [hstate]
    simp [hip, hlisten, netEndpointWifiUp]
  · rw [hstate]
    dsimp only
    rw [if_pos hip]

/-- The endpoint on its way up: what holds from a wait that ends by a
time on. -/
structure Climbs (limit : Nat) (s : TimedEndpoint) : Prop where
  record : s.endpoint.netState ≠ .noRecord
  awaits : Awaits s.endpoint.retry s.polledAt fun due => due ≤ limit
  listening : Listening s.endpoint

/-- The endpoint out of its wait. -/
def Joined (s : TimedEndpoint) : Prop :=
  s.endpoint.netState = .connecting ∨ netEndpointWifiUp s.endpoint = true

theorem wifiUp_iff (n : NetEndpoint) :
    netEndpointWifiUp n = true ↔ n.netState = .ready ∧ n.netListenerOk = true := by
  simp [netEndpointWifiUp]

theorem Climbs.joined {limit : Nat} {s : TimedEndpoint} (h : Joined s) : Climbs limit s := by
  rcases h with hstate | hup
  · refine ⟨?_, fun hwait => ?_, fun hready => ?_⟩
    · rw [hstate]
      decide
    · cases hstate.symm.trans hwait
    · cases hstate.symm.trans hready
  · obtain ⟨hstate, hok⟩ := (wifiUp_iff _).mp hup
    refine ⟨?_, fun hwait => ?_, fun _ => hok⟩
    · rw [hstate]
      decide
    · cases hstate.symm.trans hwait

/-- A callback is not seen. -/
theorem callback_same {n : NetEndpoint} {i : NetInput} (hi : ∀ env, i ≠ .poll env) :
    let m := (netStep lib n i).1
    m.netState = n.netState ∧ m.retry = n.retry ∧ m.netListenerOk = n.netListenerOk := by
  have hpolled := callback_polled lib n hi
  refine ⟨?_, ?_, ?_⟩
  · exact congrArg (fun p => p.1.state) hpolled
  · exact congrArg (fun p => p.1) hpolled
  · exact congrArg (fun p => p.2.1) hpolled

/-- A poll that finds an address leaves the wait, unless it comes before
the end. -/
theorem climbs_poll {limit : Nat} {s : TimedEndpoint} (h : Climbs limit s) {env : WifiEnv}
    {now : Nat} (hi : Finds s (.poll env now)) :
    Joined ((retryMachine lib).step s (.poll env now)).1 ∨
      now ≤ limit ∧ Climbs limit ((retryMachine lib).step s (.poll env now)).1 := by
  obtain ⟨⟨⟨hnow, hle⟩, hgap⟩, hair⟩ := hi
  obtain ⟨hip, hlisten⟩ := hair env now rfl
  obtain ⟨hearly, hover, hopen, hready⟩ := wifiPoll_finds hip hlisten s.endpoint
  cases hstate : s.endpoint.netState with
  | noRecord => exact absurd hstate h.record
  | connecting => exact .inl (.inr (hopen hstate))
  | ready =>
      refine .inl (.inr ?_)
      show netEndpointWifiUp (wifiPoll env s.endpoint).1 = true
      rw [hready hstate, wifiUp_iff]
      exact ⟨hstate, h.listening hstate⟩
  | retryWait =>
      by_cases hdue : Due env.nowMs s.endpoint.netRetryAtMs
      · exact .inl (.inl (hover hstate hdue))
      · have hkept := h.awaits.stays hle (hgap env now rfl) fun _ => by rwa [← hnow]
        have hsame : (wifiPoll env s.endpoint).1 = s.endpoint := hearly hstate hdue
        refine .inr ⟨?_, ?_⟩
        · obtain ⟨due, -, -, hset, hlimit⟩ := hkept hstate
          exact hset.trans hlimit
        · show Climbs limit ⟨(wifiPoll env s.endpoint).1, now⟩
          rw [hsame]
          exact ⟨h.record, hkept, h.listening⟩

theorem climbs_step {limit : Nat} {s : TimedEndpoint} {i : RetryInput} (h : Climbs limit s)
    (hi : Finds s i) : Climbs limit ((retryMachine lib).step s i).1 := by
  cases i with
  | poll env now =>
      rcases climbs_poll lib h hi with hjoined | ⟨-, hkept⟩
      · exact .joined hjoined
      · exact hkept
  | callback i =>
      obtain ⟨hstate, hretry, hok⟩ := callback_same lib (n := s.endpoint) hi.1.1
      refine ⟨?_, ?_, ?_⟩
      · exact fun hnone => h.record (hstate.symm.trans hnone)
      · show Awaits (netStep lib s.endpoint i).1.retry s.polledAt _
        rw [hretry]
        exact h.awaits
      · exact fun hready => hok.trans (h.listening (hstate.symm.trans hready))

/-- Out of the wait it stays, and a poll has it READY. -/
theorem joined_cases {s : TimedEndpoint} {i : RetryInput} (h : Joined s) (hi : Finds s i) :
    let m := ((retryMachine lib).step s i).1
    netEndpointWifiUp m.endpoint = true ∨
      (s.endpoint.netState = .connecting ∧ m.endpoint.netState = .connecting ∧
        ∀ env now, i ≠ .poll env now) := by
  cases i with
  | poll env now =>
      obtain ⟨hip, hlisten⟩ := hi.2 env now rfl
      obtain ⟨-, -, hopen, hready⟩ := wifiPoll_finds hip hlisten s.endpoint
      rcases h with hstate | hup
      · exact .inl (hopen hstate)
      · have hsame : (wifiPoll env s.endpoint).1 = s.endpoint := hready ((wifiUp_iff _).mp hup).1
        refine .inl ?_
        show netEndpointWifiUp (wifiPoll env s.endpoint).1 = true
        rwa [hsame]
  | callback i =>
      obtain ⟨hstate, -, hok⟩ := callback_same lib (n := s.endpoint) hi.1.1
      rcases h with hconnecting | hup
      · exact .inr ⟨hconnecting, hstate.trans hconnecting, by simp⟩
      · rw [wifiUp_iff] at hup
        exact .inl ((wifiUp_iff _).mpr ⟨hstate.trans hup.1, hok.trans hup.2⟩)

theorem joined_step {s : TimedEndpoint} {i : RetryInput} (h : Joined s) (hi : Finds s i) :
    Joined ((retryMachine lib).step s i).1 := by
  rcases joined_cases lib h hi with hup | ⟨-, hstate, -⟩
  · exact .inr hup
  · exact .inl hstate

theorem up_step {s : TimedEndpoint} {i : RetryInput} (h : netEndpointWifiUp s.endpoint = true)
    (hi : Finds s i) : netEndpointWifiUp ((retryMachine lib).step s i).1.endpoint = true := by
  rcases joined_cases lib (.inr h) hi with hup | ⟨hstate, -, -⟩
  · exact hup
  · cases hstate.symm.trans ((wifiUp_iff _).mp h).1

/-- Where polls that are less than half a turn apart lead. -/
structure Reaches (s : TimedEndpoint) (reports : List (Nat × WifiReport)) : Prop where
  pacing : Pacing s reports
  awaits : Awaits s.endpoint.retry s.polledAt fun _ => True
  listening : Listening s.endpoint

theorem boot_reaches (device : Device) : Reaches (retryBoot device) [] := by
  refine ⟨boot_pacing device, ?_, ?_⟩
  · unfold retryBoot
    cases (radioProvisionFlashRead device.radio).isSome with
    | false => exact fun hwait => by cases hwait
    | true => exact fun _ => ⟨0, rfl, Nat.zero_le _, le_rfl, trivial⟩
  · intro hready
    unfold retryBoot at hready
    rcases start_state (radioProvisionFlashRead device.radio).isSome
      (netEndpointInit device) with hs | hs
    · cases hs.symm.trans hready
    · cases hs.symm.trans hready

theorem reaches_step {s : TimedEndpoint} {reports : List (Nat × WifiReport)} {i : RetryInput}
    (h : Reaches s reports) (hi : PollsOn s i) :
    Reaches ((retryMachine lib).step s i).1 (reports ++ ((retryMachine lib).step s i).2) := by
  refine ⟨pacing_step lib h.pacing hi.1, ?_, ?_⟩
  · cases i with
    | poll env now =>
        obtain ⟨⟨hnow, hle⟩, hgap⟩ := hi
        have hmove := wifiPoll_moves env s.endpoint
        rw [hnow] at hmove
        exact h.awaits.step h.pacing.most hle (hgap env now rfl) hmove
    | callback i =>
        show Awaits (netStep lib s.endpoint i).1.retry s.polledAt _
        rw [(callback_same lib (n := s.endpoint) hi.1).2.1]
        exact h.awaits
  · cases i with
    | poll env now =>
        intro hready
        rcases (poll_state (env.reading s.endpoint.device.radio) s.endpoint).2 hready with
          ⟨hbefore, hsame⟩ | ⟨-, hok⟩
        · exact hsame.trans (h.listening hbefore)
        · exact hok
    | callback i =>
        intro hready
        obtain ⟨hstate, -, hok⟩ := callback_same lib (n := s.endpoint) hi.1
        exact hok.trans (h.listening (hstate.symm.trans hready))

theorem Reaches.climbs {s : TimedEndpoint} {reports : List (Nat × WifiReport)}
    (h : Reaches s reports) (hrecord : s.endpoint.netState ≠ .noRecord) :
    Climbs (s.polledAt + netRetryMaxMs.toNat) s := by
  refine ⟨hrecord, fun hwait => ?_, h.listening⟩
  obtain ⟨due, hat, hnear, hset, -⟩ := h.awaits hwait
  exact ⟨due, hat, hnear, hset, hnear⟩

/-- The endpoint comes back by itself. Wherever a run of polls, callbacks
and commands has left it, but for NO_RECORD, once the interface has an
address and the listener opens the second poll after the longest wait has
it READY, and it stays so. -/
theorem endpoint_returns (device : Device) (is js : List RetryInput) :
    let s := (retryMachine lib).final (retryBoot device) is
    (retryMachine lib).StepsMeet PollsOn (retryBoot device) is →
    s.endpoint.netState ≠ .noRecord → (retryMachine lib).StepsMeet Finds s js →
    ∀ as env₁ t₁ bs env₂ t₂ cs, js = as ++ .poll env₁ t₁ :: (bs ++ .poll env₂ t₂ :: cs) →
      s.polledAt + netRetryMaxMs.toNat < t₁ →
      netEndpointWifiUp ((retryMachine lib).final s js).endpoint = true := by
  intro s hreach hrecord hmeet as env₁ t₁ bs env₂ t₂ cs hjs hlate
  have hreaches : Reaches s _ :=
    (retryMachine lib).run_inv (fun s h i hP hG => reaches_step lib hP hG) is (retryBoot device)
      [] (boot_reaches device) hreach
  rw [hjs, Machine.stepsMeet_append] at hmeet
  obtain ⟨has, hfirst, hrest⟩ := hmeet
  rw [Machine.stepsMeet_append] at hrest
  obtain ⟨hbs, hsecond, hcs⟩ := hrest
  have hclimbs : Climbs (s.polledAt + netRetryMaxMs.toNat) ((retryMachine lib).final s as) :=
    (retryMachine lib).run_inv (P := fun s _ => Climbs _ s)
      (fun s h i hP hG => climbs_step lib hP hG) as s [] (hreaches.climbs hrecord) has
  have hjoined : Joined ((retryMachine lib).step ((retryMachine lib).final s as)
      (.poll env₁ t₁)).1 := by
    rcases climbs_poll lib hclimbs hfirst with hjoined | ⟨hearly, -⟩
    · exact hjoined
    · omega
  have hstays := (retryMachine lib).run_inv (P := fun s _ => Joined s)
    (fun s h i hP hG => joined_step lib hP hG) bs _ [] hjoined hbs
  have hup := (joined_cases lib hstays hsecond).resolve_right fun h => h.2.2 env₂ t₂ rfl
  rw [hjs, Machine.final_append, Machine.final_cons, Machine.final_append, Machine.final_cons]
  exact (retryMachine lib).run_inv (P := fun s _ => netEndpointWifiUp s.endpoint = true)
    (fun s h i hP hG => up_step lib hP hG) cs _ [] hup hcs

/-- Refused up to the end of a turn of the clock, and then let in. -/
def outage : List RetryInput :=
  [.poll ⟨0, false, false, true, true⟩ 0,
   .poll ⟨2147483647, false, false, true, true⟩ (2 ^ 31 - 1),
   .poll ⟨4294967294, false, false, true, true⟩ (2 ^ 32 - 2)]

def restored : List RetryInput :=
  [.poll ⟨31000, true, true, true, true⟩ (2 ^ 32 + 31000),
   .poll ⟨31005, true, true, true, true⟩ (2 ^ 32 + 31005)]

theorem endpoint_returns_wrap :
    netEndpointWifiUp ((retryMachine (toyCrypto none)).final
      ((retryMachine (toyCrypto none)).final (retryBoot radioDevice) outage)
      restored).endpoint = true := by
  obtain ⟨cfg, hcfg⟩ := Option.isSome_iff_exists.mp radioDevice_reads
  have hend : (retryMachine (toyCrypto none)).final (retryBoot radioDevice) outage
      = ⟨netRetryLater 4294967294 (netRetryLater 2147483647 (netRetryLater 0 waiting)),
          2 ^ 32 - 2⟩ := by
    have hfirst := wifiPoll_refused ⟨0, false, false, true, true⟩ (n := waiting) rfl
      (show (0 : Int32) ≤ ((0 : UInt32) - 0).toInt32 by decide) rfl rfl hcfg
    have hsecond := wifiPoll_refused ⟨2147483647, false, false, true, true⟩
      (n := netRetryLater 0 waiting) rfl
      (show (0 : Int32) ≤ ((2147483647 : UInt32) - 3000).toInt32 by decide) rfl rfl hcfg
    have hthird := wifiPoll_refused ⟨4294967294, false, false, true, true⟩
      (n := netRetryLater 2147483647 (netRetryLater 0 waiting)) rfl
      (show (0 : Int32) ≤ ((4294967294 : UInt32) - (2147483647 + 6000)).toInt32 by decide)
      rfl rfl hcfg
    rw [boot_waiting]
    unfold outage
    simp only [Machine.final_cons, Machine.final_nil, retryMachine, hfirst, hsecond, hthird]
  refine endpoint_returns (toyCrypto none) radioDevice outage restored ?_ ?_ ?_
    [] _ _ [] _ _ [] rfl ?_
  · rw [boot_waiting]
    refine ⟨⟨⟨rfl, by decide⟩, ?_⟩, ⟨⟨rfl, by decide⟩, ?_⟩, ⟨⟨rfl, by decide⟩, ?_⟩, trivial⟩
    all_goals
      intro env now hpoll
      cases hpoll
      decide
  · rw [hend]
    decide
  · rw [hend]
    refine ⟨⟨⟨⟨rfl, by decide⟩, ?_⟩, ?_⟩, ⟨⟨⟨rfl, by decide⟩, ?_⟩, ?_⟩, trivial⟩
    all_goals
      intro env now hpoll
      cases hpoll
      decide
  · rw [hend]
    decide

end PicoBridge
