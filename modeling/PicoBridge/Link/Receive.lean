/-
What the host reads of a TCP connection: the responses of the device, one
by one, however the stream is cut.

# The two ends

`pico_tcp_send.py` reads a frame with two loops over `recv`, each of which
may find any part of what it asks for (`Lib.Pull`). `net_endpoint.c`
writes what `tcp_sndbuf` has room for, so a response can leave it in many
pieces (`Link.Output`). Between the two TCP keeps the order of the bytes,
and may lose the end of them.

# The argument

What arrives is a prefix of the framed responses, so its frames are the
first of them and nothing is refused (`frames_framed`); the host's reader
is the blocking reader of that format (`recvFrame_eq`).
-/
import PicoBridge.Lib.Pull
import PicoBridge.Link.Commands
import PicoBridge.Link.Retry
import PicoBridge.Link.Output

namespace PicoBridge

open Lib (Machine Format Inlet PullError times)

-- ============================================================== the reader

/-- `_recv_exact`. -/
def recvExact (n : Nat) (sock : Inlet UInt8) : Except PullError (List UInt8) × Inlet UInt8 :=
  sock.exact n

/-- `_recv_frame`, on a socket. -/
def recvFrameFrom (sock : Inlet UInt8) : Except PullError (List UInt8) × Inlet UInt8 :=
  match recvExact 4 sock with
  | (.error e, sock) => (.error e, sock)
  | (.ok head, sock) =>
      let length := be32Of head
      if ¬(1 ≤ length ∧ length ≤ 65535) then (.error .refused, sock)
      else recvExact length sock

/-- The lengths that `_recv_frame` takes. -/
def hostSize (head : List UInt8) : Option Nat :=
  if 1 ≤ be32Of head ∧ be32Of head ≤ 65535 then some (be32Of head) else none

theorem hostSize_some {head : List UInt8} {n : Nat} (h : hostSize head = some n) :
    n = be32Of head ∧ 1 ≤ n ∧ n ≤ 65535 := by
  unfold hostSize at h
  split at h
  next hrange =>
    cases h
    exact ⟨rfl, hrange⟩
  next => cases h

/-- The framing that the host reads. -/
def hostFormat : Format UInt8 where
  header := 4
  size := hostSize
  header_pos := Nat.zero_lt_succ 3
  size_pos := fun _ _ h => (hostSize_some h).2.1

theorem hostSize_be32 {n : Nat} (hpos : 1 ≤ n) (hle : n ≤ 65535) :
    hostSize (be32 n) = some n := by
  unfold hostSize
  rw [be32Of_be32 (by omega), if_pos ⟨hpos, hle⟩]

/-- `_recv_frame` is the blocking reader of that format. -/
theorem recvFrame_eq : recvFrameFrom = hostFormat.pull := by
  funext sock
  unfold recvFrameFrom recvExact Format.pull
  cases hread : sock.exact 4 with
  | mk r mid =>
      rw [show sock.exact hostFormat.header = (r, mid) from hread]
      cases r with
      | error e => rfl
      | ok head =>
          dsimp only
          rw [show hostFormat.size head = hostSize head from rfl, hostSize]
          by_cases hrange : 1 ≤ be32Of head ∧ be32Of head ≤ 65535
          · rw [if_neg (not_not_intro hrange), if_pos hrange]
          · rw [if_pos hrange, if_neg hrange]

-- ============================================================== the stream

/-- A response that the host's reader takes. -/
def Frameable (resp : List UInt8) : Prop := 1 ≤ resp.length ∧ resp.length ≤ 65535

theorem framed_cons (resp : List UInt8) (rs : List (List UInt8)) :
    framed (resp :: rs) = be32 resp.length ++ (resp ++ framed rs) := by
  unfold framed
  rw [List.flatMap_cons, List.append_assoc]

/-- The frames of what arrives of framed responses are the first of them,
all that arrive whole. -/
theorem frames_framed {rs : List (List UInt8)} : ∀ {w : List UInt8},
    (∀ resp ∈ rs, Frameable resp) → w <+: framed rs →
    (hostFormat.frames w).2 ≠ none ∧ (hostFormat.frames w).1 <+: rs ∧
      ∀ k ≤ rs.length, framed (rs.take k) <+: w → k ≤ (hostFormat.frames w).1.length := by
  induction rs with
  | nil =>
      intro w _ hw
      rw [List.prefix_nil.mp hw, Format.frames_unfinished hostFormat.unfinished_nil]
      exact ⟨by simp, List.nil_prefix, fun k hk _ => hk⟩
  | cons resp rs ih =>
      intro w hframeable hw
      obtain ⟨hpos, hmax⟩ := hframeable resp List.mem_cons_self
      have hhead := be32_length resp.length
      rw [framed_cons] at hw
      by_cases hshort : w.length < 4 + resp.length
      · have hunfinished : hostFormat.Unfinished w := by
          by_cases hheader : w.length < 4
          · exact .inl hheader
          · refine .inr ⟨resp.length, ?_, hshort⟩
            have htake : w.take 4 = be32 resp.length := by
              rw [List.prefix_iff_eq_take.mp hw, List.take_take, Nat.min_eq_left (by omega),
                List.take_left' hhead]
            show hostSize (w.take 4) = _
            rw [htake, hostSize_be32 hpos hmax]
        rw [Format.frames_unfinished hunfinished]
        refine ⟨by simp, List.nil_prefix, fun k hk hwhole => ?_⟩
        cases k with
        | zero => exact Nat.zero_le _
        | succ k =>
            have hlen := hwhole.length_le
            rw [List.take_succ_cons, framed_cons, List.length_append, List.length_append,
              hhead] at hlen
            omega
      · obtain ⟨w', rfl⟩ : be32 resp.length ++ resp <+: w := by
          rw [← List.append_assoc] at hw
          exact List.prefix_of_prefix_length_le (List.prefix_append _ _) hw
            (by rw [List.length_append, hhead]; omega)
        rw [List.append_assoc] at hw ⊢
        have hrest : w' <+: framed rs :=
          (List.prefix_append_right_inj _).mp ((List.prefix_append_right_inj _).mp hw)
        obtain ⟨htaken, hfirst, hwhole⟩ :=
          ih (fun resp hresp => hframeable resp (List.mem_cons_of_mem _ hresp)) hrest
        rw [Format.frames_cons (F := hostFormat) hhead (hostSize_be32 hpos hmax)]
        refine ⟨htaken, (List.prefix_cons_inj resp).mpr hfirst, fun k hk hinitial => ?_⟩
        cases k with
        | zero => exact Nat.zero_le _
        | succ k =>
            rw [List.take_succ_cons, framed_cons] at hinitial
            refine Nat.succ_le_succ (hwhole k (Nat.le_of_succ_le_succ hk) ?_)
            exact (List.prefix_append_right_inj _).mp ((List.prefix_append_right_inj _).mp hinitial)

variable (lib : Crypto)

-- ============================================================ the responses

/-- The responses of the device are such. -/
theorem response_frameable (hlib : lib.Lawful) {d d' : Device} {env : FrameEnv}
    {data resp : List UInt8} {cap : Nat}
    (h : commandProcessFrame lib d env data cap = (some resp, d')) : Frameable resp := by
  have hlong := response_length lib hlib h
  unfold bleCmdBufMax noiseIkMaxPlaintext at hlong
  exact ⟨List.length_pos_iff.mpr (response_ne_nil lib h), by omega⟩

theorem reports_frameable (hlib : lib.Lawful) (cs : List Call) : ∀ d : Device,
    ∀ resp ∈ responsesOf (reports lib d cs), Frameable resp := by
  induction cs with
  | nil =>
      intro d resp hresp
      cases hresp
  | cons c cs ih =>
      intro d resp hresp
      rw [reports, ← List.singleton_append, responsesOf_append] at hresp
      rcases List.mem_append.mp hresp with hnow | hlater
      · cases hc : commandProcessFrame lib d c.env c.data bridgeTransportResponseMax with
        | mk r d' =>
            rw [hc] at hnow
            cases r with
            | none => cases hnow
            | some resp' =>
                rw [List.mem_singleton.mp hnow]
                exact response_frameable lib hlib hc
      · exact ih _ resp hlater

theorem reportsOn_frameable (hlib : lib.Lawful) (pcb : Pcb) (is : List NetInput) :
    ∀ n : NetEndpoint, ∀ resp ∈ responsesOf (reportsOn lib pcb n is), Frameable resp := by
  induction is with
  | nil =>
      intro n resp hresp
      cases hresp
  | cons i is ih =>
      intro n resp hresp
      rw [reportsOn, responsesOf_append] at hresp
      rcases List.mem_append.mp hresp with hnow | hlater
      · cases i with
        | recv q p errOk =>
            unfold reportsTo at hnow
            dsimp only at hnow
            split at hnow
            · exact reports_frameable lib hlib _ _ resp hnow
            · cases hnow
        | _ => cases hnow
      · exact ih _ resp hlater

-- ================================================================== the runs

/-- What the host reads of a connection, over every run of the device's
endpoint from boot, whatever the callbacks bring, the send buffer has room
for and `tcp_write` takes, however much of it arrives, and however the
host's reads cut it: never a length that it refuses; and what it reads are
the first responses of that connection, in order, each as the device made
it. All that arrive whole can be read. -/
theorem responses_received (hlib : lib.Lawful) (device : Device) (radioRecord : Bool)
    (before after : List NetInput) (pcb : Pcb)
    (honce : ∀ errOk, .accept (some pcb) errOk ∉ after) :
    let accepting := (netMachine lib).final
      (netEndpointStart radioRecord (netEndpointInit device)) before
    let opened := (netStep lib accepting (.accept (some pcb) true)).1
    let responses := responsesOf (reportsOn lib pcb opened after)
    accepting.netSessionPcb = none →
    ∀ sock : Inlet UInt8, sock.rest <+: writtenOn pcb ((netMachine lib).trace opened after) →
    ∀ k,
      (∀ s, times recvFrameFrom k sock ≠ (.error .refused, s)) ∧
      (∀ frames s, times recvFrameFrom k sock = (.ok frames, s) →
        k ≤ responses.length ∧ frames = responses.take k) ∧
      (k ≤ responses.length → framed (responses.take k) <+: sock.rest →
        sock.rest.length ≤ sock.finds.length →
        ∃ s, times recvFrameFrom k sock = (.ok (responses.take k), s)) := by
  intro accepting opened responses hnone sock harrives k
  obtain ⟨hsound, -⟩ := idle_run lib device radioRecord before
  have hopened : Output pcb opened [] [] := by
    show Output pcb (netStep lib accepting _).1 [] []
    rw [accept_idle lib hsound hnone]
    exact .running rfl rfl
  obtain ⟨houtput, -⟩ := run_output lib pcb after (step_lifetime lib hsound _).1 honce hopened
  obtain ⟨htaken, hfirst, hwhole⟩ := frames_framed (reportsOn_frameable lib hlib pcb after opened)
    (harrives.trans houtput.written)
  rw [recvFrame_eq]
  refine ⟨fun s hrefused => htaken (Format.pulls_refused hrefused), fun frames s hread => ?_,
    fun hk hinitial hfinds => ?_⟩
  · obtain ⟨hlen, hframes⟩ := Format.pulls_ok hread
    have hinitial : frames <+: responses := by
      rw [hframes] at hfirst
      exact (List.prefix_append _ _).trans hfirst
    rw [← hlen]
    exact ⟨hinitial.length_le, List.prefix_iff_eq_take.mp hinitial⟩
  · have hcount := hwhole k hk hinitial
    obtain ⟨s, hread⟩ := Format.pulls_total hcount hfinds
    refine ⟨s, ?_⟩
    rw [List.prefix_iff_eq_take.mp hfirst, List.take_take, Nat.min_eq_left hcount] at hread
    exact hread

/-- A tick in a session, whose receipt leaves the device in two pieces. -/
def ticked : List NetInput :=
  [.recv 7 (some [(be32 26 ++ [6, 0, 0, 0, 0, 0, 0, 0, 0, 4, 1, 0, 0, 0, 0, 0, 0, 0, 0,
      1, 1, 1, 1, 1, 1, 1]).map fun byte => ⟨byte, envAt 1000, ⟨10, true⟩⟩]) true,
    .sent 7 ⟨100, true⟩]

/-- Its receipt. -/
def tickReceipt : List UInt8 :=
  [6, 0, 0, 0, 0, 0, 0, 0, 0, 80, 66, 79, 75, 49, 2, 1, 0, 0, 0, 0, 0, 0, 0, 0, 2, 2, 2, 2, 2, 2, 2]

theorem responses_received_ticked :
    ∃ s, times recvFrameFrom 1 ⟨be32 31 ++ tickReceipt, List.replicate 35 0⟩
      = (.ok [tickReceipt], s) := by
  have hall := responses_received (toyCrypto none) toyCrypto_lawful (countedDevice 0) true
    [] ticked 7 (by simp [ticked]) rfl ⟨be32 31 ++ tickReceipt, List.replicate 35 0⟩
  rw [Machine.final_nil] at hall
  have hresponses : responsesOf (reportsOn (toyCrypto none) 7 (netStep (toyCrypto none)
      (netEndpointStart true (netEndpointInit (countedDevice 0))) (.accept (some 7) true)).1 ticked)
        = [tickReceipt] := by
    decide +kernel
  have hwritten : writtenOn 7 ((netMachine (toyCrypto none)).trace (netStep (toyCrypto none)
      (netEndpointStart true (netEndpointInit (countedDevice 0))) (.accept (some 7) true)).1 ticked)
        = be32 31 ++ tickReceipt := by
    decide +kernel
  rw [hresponses, hwritten] at hall
  exact (hall (List.prefix_refl _) 1).2.2 le_rfl (List.prefix_refl _) (by decide)

end PicoBridge
