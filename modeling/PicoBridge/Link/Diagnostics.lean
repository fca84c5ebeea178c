/-
The network diagnostics: the getters of `firmware/net_endpoint.c` that
answer the NET commands, the scan behind them, and `cmd_net_debug` of
`tools/pico_bridge_ctl.py`, which puts their status bytes together again.

# What is modelled how

- lwIP keeps an address as a `u32` in network byte order, which the
  little-endian device reads with the first octet lowest.
- The driver's answers (the address, the link status, the scan results)
  are what it gives: a scan is the callbacks it makes.
- The host asks for a receipt and gets its status byte, or none. The texts
  it logs are left out; the values in them are its report.

# Where it does not come back

The octets are read from the other end of the address. And a best RSSI of 0
is also that of no result, so one behind it takes its place: what is
reported is the best behind the last 0 (`scan_run`).
-/
import PicoBridge.Device.Effect
import PicoBridge.Link.Net
import Mathlib.Data.List.DropRight

namespace PicoBridge

-- ================================================================== the scan

/-- `cyw43_ev_scan_result_t`. -/
structure ScanResult where
  ssidLen : UInt8
  ssid : List UInt8
  rssi : Int16
  ssidSize : ssid.length = 32

/-- The statics of the scan; the SSID without its NUL. -/
structure NetScan where
  netScanTotal : UInt16
  netScanMatch : UInt16
  netScanBestRssi : Int16
  netScanSsid : List UInt8

/-- The test of `net_scan_result_cb`. -/
def ScanResult.isSsid (r : ScanResult) (ssid : List UInt8) : Bool :=
  r.ssidLen ≤ 32 && r.ssidLen.toNat == ssid.length && r.ssid.take r.ssidLen.toNat == ssid

/-- `net_scan_result_cb`. -/
def netScanResultCb (s : NetScan) (r : ScanResult) : NetScan :=
  let s := if s.netScanTotal < 0xFFFF then { s with netScanTotal := s.netScanTotal + 1 } else s
  if r.isSsid s.netScanSsid then
    let s := if s.netScanMatch < 0xFFFF then { s with netScanMatch := s.netScanMatch + 1 } else s
    if s.netScanBestRssi = 0 ∨ r.rssi > s.netScanBestRssi then
      { s with netScanBestRssi := r.rssi }
    else s
  else s

/-- A scan that has not had a result: `strncpy` takes 32 bytes at most. -/
def netScanStarted (cfg : RadioConfig) : NetScan where
  netScanTotal := 0
  netScanMatch := 0
  netScanBestRssi := 0
  netScanSsid := (cfg.ssid.takeWhile (· != 0)).take 32

/-- `net_endpoint_scan_start`, by what the driver and the record say. -/
def netEndpointScanStart (scanActive : Bool) (record : Option RadioConfig) (accepted : Bool)
    (s : NetScan) : Bool × NetScan :=
  if scanActive then (false, s)
  else
    match record with
    | none => (false, s)
    | some cfg => (accepted, netScanStarted cfg)

/-- A scan that is started behind others, through its callbacks. -/
def netScanRun (s : NetScan) (cfg : RadioConfig) (results : List ScanResult) : NetScan :=
  results.foldl netScanResultCb (netEndpointScanStart false (some cfg) true s).2

-- ================================================================ the getters

def netEndpointScanTotal (s : NetScan) : UInt8 :=
  if s.netScanTotal > 254 then 255 else s.netScanTotal.toUInt8

def netEndpointScanMatch (s : NetScan) : UInt8 :=
  if s.netScanMatch > 254 then 255 else s.netScanMatch.toUInt8

def netEndpointScanRssi (s : NetScan) : Int8 := s.netScanBestRssi.toInt8

/-- `net_endpoint_ip_octet`, on `ip4_addr_get_u32`. -/
def netEndpointIpOctet (addr : UInt32) (index : UInt8) : UInt8 :=
  if index > 3 then 0 else (addr >>> UInt32.ofNat (24 - 8 * index.toNat)).toUInt8

/-- `net_endpoint_link`, on `cyw43_wifi_link_status`. -/
def netEndpointLink (netState : NetState) (status : Int) : Int8 :=
  if netState = .noRecord then 0 else Int8.ofInt status

/-- What the endpoint and its driver say: an address, a link and a scan. -/
structure NetDriver where
  addr : UInt32
  netState : NetState
  linkStatus : Int
  scan : NetScan

/-- The readings, the other ones as they are. -/
def NetDriver.readings (v : NetDriver) (others : NetReadings) : NetReadings :=
  { others with
    link := netEndpointLink v.netState v.linkStatus
    ipOctet := netEndpointIpOctet v.addr
    scanTotal := netEndpointScanTotal v.scan
    scanMatch := netEndpointScanMatch v.scan
    scanRssi := netEndpointScanRssi v.scan }

/-- The status byte of the receipt to a command, if one is due. -/
def receiptStatus (d : Device) (env : FrameEnv) (data : List UInt8) : Option UInt8 :=
  let r := bleHandleAuthenticatedCommand d env data
  if r.1 then some r.2.cmdAckStatus else none

-- =================================================================== the host

/-- What `cmd_net_debug` logs: an address if every octet came, and a scan
if its total did. -/
structure NetDebugReport where
  link : Int
  raw : Nat
  dhcp : Option Nat
  probe : Option Nat
  ip : Option (List Nat)
  scan : Option (Nat × Option Nat × Int)

/-- The RSSI in a status byte. -/
def rssiOf (rssi : Option UInt8) : Int :=
  match rssi with
  | some rssi => if rssi.toNat > 127 then rssi.toNat - 256 else rssi.toNat
  | none => 0

/-- All of a list of answers, or none. -/
def allAnswers : List (Option UInt8) → Option (List Nat)
  | [] => some []
  | none :: _ => none
  | some v :: vs => (allAnswers vs).map (v.toNat :: ·)

/-- `cmd_net_debug`, by the status bytes it is sent before the scan and
behind it; none where it raises. -/
def cmdNetDebug (ask askScan : List UInt8 → Option UInt8) : Option NetDebugReport := do
  let status ← ask [bleCmdNetDebug]
  let raw8 ← ask [bleCmdNetRaw]
  some {
    link := (status.toNat : Int) - 40
    raw := raw8.toNat
    dhcp := (ask [bleCmdNetDhcp]).map UInt8.toNat
    probe := (ask [bleCmdNetProbe]).map UInt8.toNat
    ip := allAnswers ([0, 1, 2, 3].map fun idx => ask [bleCmdNetIp, idx])
    scan := (askScan [bleCmdNetScanTotal]).map fun total =>
      (total.toNat, (askScan [bleCmdNetScanMatch]).map UInt8.toNat,
        rssiOf (askScan [bleCmdNetScanRssi])) }

-- ========================================================= the callbacks' run

/-- The RSSIs of the results that have the SSID. -/
def matchingRssi (ssid : List UInt8) (results : List ScanResult) : List Int :=
  (results.filter (·.isSsid ssid)).map (·.rssi.toInt)

/-- The largest, or 0 where there is none. -/
def bestRssi (rssis : List Int) : Int := rssis.max?.getD 0

/-- Those behind the last 0. -/
def behindZero (rssis : List Int) : List Int := rssis.rtakeWhile (· != 0)

theorem matchingRssi_append (ssid : List UInt8) (results : List ScanResult) (r : ScanResult) :
    matchingRssi ssid (results ++ [r])
      = if r.isSsid ssid then matchingRssi ssid results ++ [r.rssi.toInt]
        else matchingRssi ssid results := by
  unfold matchingRssi
  rw [List.filter_append, List.filter_singleton]
  cases r.isSsid ssid with
  | true =>
      rw [List.map_append]
      rfl
  | false =>
      rw [cond_false, List.append_nil]
      rfl

theorem bestRssi_append {rssis : List Int} (hne : rssis ≠ []) (v : Int) :
    bestRssi (rssis ++ [v]) = max (bestRssi rssis) v := by
  match rssis with
  | [] => exact absurd rfl hne
  | a :: rssis =>
      unfold bestRssi
      rw [List.cons_append, List.max?_cons', List.max?_cons', List.foldl_append]
      rfl

theorem bestRssi_mem {rssis : List Int} (hne : rssis ≠ []) : bestRssi rssis ∈ rssis := by
  unfold bestRssi
  match hmax : rssis.max? with
  | none => exact absurd (List.max?_eq_none_iff.mp hmax) hne
  | some v => exact List.max?_mem hmax

/-- The running best, on values. -/
def keepBest (best v : Int) : Int := if best = 0 ∨ best < v then v else best

/-- What a result does to the best behind the last 0. -/
theorem bestRssi_behindZero {rssis : List Int} (hle : ∀ v ∈ rssis, v ≤ 0) (v : Int) :
    bestRssi (behindZero (rssis ++ [v])) = keepBest (bestRssi (behindZero rssis)) v := by
  have hneg : behindZero rssis ≠ [] → bestRssi (behindZero rssis) < 0 := by
    intro hne
    have hmem := bestRssi_mem hne
    have hle := hle _ ((List.rtakeWhile_suffix _ _).mem hmem)
    have hpass := List.mem_rtakeWhile_imp (p := (· != 0)) hmem
    rw [bne_iff_ne] at hpass
    omega
  unfold behindZero at hneg ⊢
  by_cases hv : v = 0
  · rw [List.rtakeWhile_concat_neg _ _ _ (by simp [hv]), hv]
    unfold keepBest
    split
    · rfl
    next h =>
      rw [not_or] at h
      by_cases hne : rssis.rtakeWhile (· != 0) = []
      · exact absurd (by rw [hne]; rfl) h.1
      · exact absurd (hneg hne) h.2
  · rw [List.rtakeWhile_concat_pos _ _ _ (by simp [hv])]
    by_cases hne : rssis.rtakeWhile (· != 0) = []
    · rw [hne, keepBest, if_pos (.inl rfl)]
      rfl
    · have hlt := hneg hne
      rw [bestRssi_append hne, keepBest]
      split
      next h => exact max_eq_right (by omega)
      next h =>
        rw [not_or] at h
        exact max_eq_left (by omega)

theorem count_step {n : UInt16} :
    (if n < 0xFFFF then n + 1 else n).toNat = min 0xFFFF (n.toNat + 1) := by
  have hlt := n.toNat_lt
  split
  next h =>
    have h : n.toNat < 65535 := UInt16.lt_iff_toNat_lt.mp h
    rw [UInt16.toNat_add]
    show (n.toNat + 1) % 65536 = min 65535 (n.toNat + 1)
    omega
  next h =>
    have h : ¬n.toNat < 65535 := fun hn => h (UInt16.lt_iff_toNat_lt.mpr hn)
    omega

/-- One callback. -/
theorem scan_step (s : NetScan) (r : ScanResult) :
    (netScanResultCb s r).netScanSsid = s.netScanSsid ∧
    (netScanResultCb s r).netScanTotal.toNat = min 0xFFFF (s.netScanTotal.toNat + 1) ∧
    (netScanResultCb s r).netScanMatch.toNat
      = (if r.isSsid s.netScanSsid then min 0xFFFF (s.netScanMatch.toNat + 1)
        else s.netScanMatch.toNat) ∧
    (netScanResultCb s r).netScanBestRssi.toInt
      = if r.isSsid s.netScanSsid then keepBest s.netScanBestRssi.toInt r.rssi.toInt
        else s.netScanBestRssi.toInt := by
  have hzero : s.netScanBestRssi = 0 ↔ s.netScanBestRssi.toInt = 0 := Int16.toInt_inj.symm
  have hless : r.rssi > s.netScanBestRssi ↔ s.netScanBestRssi.toInt < r.rssi.toInt :=
    Int16.lt_iff_toInt_lt
  have hsplit : netScanResultCb s r = {
      netScanSsid := s.netScanSsid
      netScanTotal := if s.netScanTotal < 0xFFFF then s.netScanTotal + 1 else s.netScanTotal
      netScanMatch :=
        if r.isSsid s.netScanSsid then
          if s.netScanMatch < 0xFFFF then s.netScanMatch + 1 else s.netScanMatch
        else s.netScanMatch
      netScanBestRssi :=
        if r.isSsid s.netScanSsid then
          if s.netScanBestRssi = 0 ∨ r.rssi > s.netScanBestRssi then r.rssi
          else s.netScanBestRssi
        else s.netScanBestRssi } := by
    unfold netScanResultCb
    by_cases htotal : s.netScanTotal < 0xFFFF <;> by_cases hssid : r.isSsid s.netScanSsid <;>
      by_cases hmatch : s.netScanMatch < 0xFFFF <;>
      by_cases hbest : s.netScanBestRssi = 0 ∨ r.rssi > s.netScanBestRssi <;>
      simp only [htotal, hssid, hmatch, hbest, if_true, if_false, Bool.false_eq_true]
  rw [hsplit]
  refine ⟨rfl, count_step, ?_, ?_⟩
  · dsimp only
    split
    · exact count_step
    · rfl
  · dsimp only
    split
    · unfold keepBest
      simp only [hzero, hless]
      split <;> rfl
    · rfl

/-- A scan, behind its callbacks: the counts, up to where they stop, and the
best of the results behind the last that has an RSSI of 0. -/
theorem scan_run (s : NetScan) (cfg : RadioConfig) (results : List ScanResult) :
    (netScanRun s cfg results).netScanSsid = (netScanStarted cfg).netScanSsid ∧
    (netScanRun s cfg results).netScanTotal.toNat = min 0xFFFF results.length ∧
    (netScanRun s cfg results).netScanMatch.toNat
      = min 0xFFFF (matchingRssi (netScanStarted cfg).netScanSsid results).length ∧
    ((∀ v ∈ matchingRssi (netScanStarted cfg).netScanSsid results, v ≤ 0) →
      (netScanRun s cfg results).netScanBestRssi.toInt
        = bestRssi (behindZero (matchingRssi (netScanStarted cfg).netScanSsid results))) := by
  generalize hssid : (netScanStarted cfg).netScanSsid = ssid
  induction results using List.reverseRecOn with
  | nil => exact ⟨hssid, rfl, rfl, fun _ => rfl⟩
  | append_singleton results r ih =>
      obtain ⟨hkeep, htotal, hmatch, hbest⟩ := ih
      have hrun : netScanRun s cfg (results ++ [r])
          = netScanResultCb (netScanRun s cfg results) r := by
        unfold netScanRun
        rw [List.foldl_append, List.foldl_cons, List.foldl_nil]
      obtain ⟨hkeep', htotal', hmatch', hbest'⟩ := scan_step (netScanRun s cfg results) r
      rw [hrun, hkeep', htotal', hmatch', hbest', hkeep, matchingRssi_append, List.length_append,
        List.length_singleton]
      refine ⟨rfl, by omega, ?_, ?_⟩
      · split
        · rw [List.length_append, List.length_singleton]
          omega
        · exact hmatch
      · split
        · intro hle
          have hbefore : ∀ v ∈ matchingRssi ssid results, v ≤ 0 :=
            fun v hv => hle v (List.mem_append_left _ hv)
          rw [bestRssi_behindZero hbefore, hbest hbefore]
        · exact hbest

-- ================================================================== the bytes

/-- A count in its byte. -/
theorem count_byte {n : UInt16} {k : Nat} (h : n.toNat = min 0xFFFF k) :
    (if n > 254 then 255 else n.toUInt8).toNat = min 255 k := by
  split
  next hbig =>
    have hbig : 254 < n.toNat := UInt16.lt_iff_toNat_lt.mp hbig
    show 255 = min 255 k
    omega
  next hsmall =>
    have hsmall : ¬254 < n.toNat := fun hn => hsmall (UInt16.lt_iff_toNat_lt.mpr hn)
    rw [UInt16.toNat_toUInt8]
    omega

/-- An address whose octets are a, b, c and d, as lwIP has it. -/
def lwipAddr (a b c d : UInt8) : UInt32 := UInt32.ofNat (leValue [a, b, c, d])

theorem lwipAddr_toNat (a b c d : UInt8) :
    (lwipAddr a b c d).toNat
      = a.toNat + 256 * (b.toNat + 256 * (c.toNat + 256 * d.toNat)) := by
  have ha := a.toNat_lt
  have hb := b.toNat_lt
  have hc := c.toNat_lt
  have hd := d.toNat_lt
  unfold lwipAddr leValue leValue leValue leValue leValue
  rw [UInt32.toNat_ofNat_of_lt']
  · rfl
  · show _ < 4294967296
    omega

/-- A byte of an address. -/
theorem ipOctet_toNat (addr : UInt32) {index : UInt8} (h : index.toNat ≤ 3) :
    (netEndpointIpOctet addr index).toNat = addr.toNat / 2 ^ (24 - 8 * index.toNat) % 256 := by
  have hindex : ¬index > 3 := fun hbig => by
    have hbig : 3 < index.toNat := UInt8.lt_iff_toNat_lt.mp hbig
    omega
  have hshift : (UInt32.ofNat (24 - 8 * index.toNat)).toNat = 24 - 8 * index.toNat :=
    UInt32.toNat_ofNat_of_lt' (by show _ < 4294967296; omega)
  rw [netEndpointIpOctet, if_neg hindex, UInt32.toNat_toUInt8, UInt32.toNat_shiftRight, hshift,
    Nat.mod_eq_of_lt (show 24 - 8 * index.toNat < 32 by omega), Nat.shiftRight_eq_div_pow]

/-- The octets come from the other end. -/
theorem ipOctet_eq (a b c d : UInt8) :
    netEndpointIpOctet (lwipAddr a b c d) 0 = d ∧ netEndpointIpOctet (lwipAddr a b c d) 1 = c ∧
    netEndpointIpOctet (lwipAddr a b c d) 2 = b ∧ netEndpointIpOctet (lwipAddr a b c d) 3 = a := by
  have ha := a.toNat_lt
  have hb := b.toNat_lt
  have hc := c.toNat_lt
  have hd := d.toNat_lt
  have haddr := lwipAddr_toNat a b c d
  refine ⟨?_, ?_, ?_, ?_⟩
  · rw [← UInt8.toNat_inj, ipOctet_toNat _ (by decide), haddr]
    show _ / 16777216 % 256 = _
    omega
  · rw [← UInt8.toNat_inj, ipOctet_toNat _ (by decide), haddr]
    show _ / 65536 % 256 = _
    omega
  · rw [← UInt8.toNat_inj, ipOctet_toNat _ (by decide), haddr]
    show _ / 256 % 256 = _
    omega
  · rw [← UInt8.toNat_inj, ipOctet_toNat _ (by decide), haddr]
    show _ / 1 % 256 = _
    omega

/-- A link status in its byte, and out of it. -/
theorem link_byte {status : Int} (h : -3 ≤ status ∧ status ≤ 3) :
    ((40 + Int8.ofInt status).toUInt8.toNat : Int) - 40 = status := by
  obtain rfl | rfl | rfl | rfl | rfl | rfl | rfl : status = -3 ∨ status = -2 ∨ status = -1 ∨
      status = 0 ∨ status = 1 ∨ status = 2 ∨ status = 3 := by omega
  all_goals rfl

/-- An RSSI in its byte, and out of it. -/
theorem rssi_byte (v : Int16) : rssiOf (some v.toInt8.toUInt8) = v.toInt.bmod 256 := by
  have hwrap : v.toInt8.toInt = v.toInt.bmod 256 := Int16.toInt_toInt8 v
  have hcond : v.toInt8.toInt = _ := BitVec.toInt_eq_toNat_cond v.toInt8.toBitVec
  have hbyte : v.toInt8.toUInt8.toNat = v.toInt8.toBitVec.toNat := rfl
  rw [← hwrap, hcond, rssiOf, hbyte]
  split
  · rw [if_neg (by omega)]
    rfl
  · rw [if_pos (by omega)]

-- ============================================================ there and back

/-- A report of an address, a link and the results of a scan. -/
def NetDebugReport.Tells (report : NetDebugReport) (octets : List UInt8) (link : Int)
    (results : Nat) (rssis : List Int) : Prop :=
  report.link = link ∧ report.ip = some (octets.map UInt8.toNat) ∧
  report.scan = some (min 255 results, some (min 255 rssis.length), bestRssi rssis)

/-- The report, from the readings. -/
theorem netDebug_readings (d d' : Device) (env env' : FrameEnv) (net net' : NetReadings) :
    cmdNetDebug (receiptStatus d { env with net := some net })
        (receiptStatus d' { env' with net := some net' }) = some {
      link := ((40 + net.link).toUInt8.toNat : Int) - 40
      raw := (net.raw >>> 8).toUInt8.toNat
      dhcp := some net.dhcp.toNat
      probe := some net.probe.toNat
      ip := some ([0, 1, 2, 3].map fun idx => (net.ipOctet idx).toNat)
      scan := some (net'.scanTotal.toNat, some net'.scanMatch.toNat,
        rssiOf (some net'.scanRssi.toUInt8)) } := by
  rfl

theorem le_bestRssi {rssis : List Int} {v : Int} (hv : v ∈ rssis) : v ≤ bestRssi rssis := by
  unfold bestRssi
  match hmax : rssis.max? with
  | none =>
      rw [List.max?_eq_none_iff.mp hmax] at hv
      cases hv
  | some best => exact (List.max?_le_iff hmax).mp (Int.le_refl best) v hv

/-- The best that is reported, against the best there is. -/
theorem reported_best_iff {rssis : List Int} (h : -127 ≤ bestRssi rssis ∧ bestRssi rssis ≤ 0) :
    (bestRssi (behindZero rssis)).bmod 256 = bestRssi rssis ↔
      (0 ∈ rssis → 256 ∣ bestRssi (behindZero rssis)) := by
  by_cases hzero : 0 ∈ rssis
  · have hbest : bestRssi rssis = 0 := Int.le_antisymm h.2 (le_bestRssi hzero)
    rw [hbest, ← Int.dvd_iff_bmod_eq_zero]
    exact ⟨fun h _ => h, fun h => h hzero⟩
  · have hall : behindZero rssis = rssis := by
      unfold behindZero
      rw [List.rtakeWhile_eq_self_iff]
      intro v hv
      rw [bne_iff_ne]
      rintro rfl
      exact hzero hv
    rw [hall]
    exact iff_of_true (Int.bmod_eq_of_le (by omega) (by omega)) fun h => absurd h hzero

/-- The octets in the order they come. -/
theorem octets_iff (a b c d : UInt8) :
    ([0, 1, 2, 3].map fun idx => (netEndpointIpOctet (lwipAddr a b c d) idx).toNat)
        = [a, b, c, d].map UInt8.toNat ↔ a = d ∧ b = c := by
  obtain ⟨h0, h1, h2, h3⟩ := ipOctet_eq a b c d
  simp only [List.map_cons, List.map_nil, h0, h1, h2, h3, List.cons.injEq, UInt8.toNat_inj,
    and_true]
  constructor
  · rintro ⟨-, -, hb, ha⟩
    exact ⟨ha.symm ▸ rfl, hb⟩
  · rintro ⟨rfl, rfl⟩
    exact ⟨rfl, rfl, rfl, rfl⟩

/-- The RSSIs of the results that have the SSID of the record. -/
def scanRssis (cfg : RadioConfig) (results : List ScanResult) : List Int :=
  matchingRssi (netScanStarted cfg).netScanSsid results

/-- The diagnostics of a device with an address and a link status, and
behind it of a scan: the report tells what they are if and only if the
address reads the same from both ends, and no result of the SSID has an
RSSI of 0 unless the best behind the last that has is 0 in its byte. -/
theorem net_debug_iff (dev dev' : Device) (env env' : FrameEnv) (others others' : NetReadings)
    (before behind : NetDriver) (s : NetScan) (cfg : RadioConfig) (results : List ScanResult)
    (a b c d : UInt8) (hlink : -3 ≤ before.linkStatus ∧ before.linkStatus ≤ 3)
    (hbest : -127 ≤ bestRssi (scanRssis cfg results) ∧ bestRssi (scanRssis cfg results) ≤ 0) :
    (∃ report, cmdNetDebug
        (receiptStatus dev
          { env with net := some (NetDriver.readings
            { before with addr := lwipAddr a b c d } others) })
        (receiptStatus dev'
          { env' with net := some (NetDriver.readings
            { behind with scan := netScanRun s cfg results } others') })
        = some report ∧
      report.Tells [a, b, c, d] (if before.netState = .noRecord then 0 else before.linkStatus)
        results.length (scanRssis cfg results)) ↔
      (a = d ∧ b = c) ∧
        (0 ∈ scanRssis cfg results → 256 ∣ bestRssi (behindZero (scanRssis cfg results))) := by
  obtain ⟨-, htotal, hmatch, hrssi⟩ := scan_run s cfg results
  have hrssi := hrssi fun v hv => Int.le_trans (le_bestRssi hv) hbest.2
  have hlink : ((40 + netEndpointLink before.netState before.linkStatus).toUInt8.toNat : Int) - 40
      = if before.netState = .noRecord then 0 else before.linkStatus := by
    unfold netEndpointLink
    split
    · rfl
    · exact link_byte hlink
  have hscan : rssiOf (some (netEndpointScanRssi (netScanRun s cfg results)).toUInt8)
      = (bestRssi (behindZero (scanRssis cfg results))).bmod 256 := by
    unfold netEndpointScanRssi
    rw [rssi_byte, hrssi]
    rfl
  have htotals := count_byte htotal
  have hmatches := count_byte hmatch
  rw [← octets_iff, ← reported_best_iff hbest, ← hscan]
  constructor
  · rintro ⟨report, heq, -, hip, hreport⟩
    rw [netDebug_readings] at heq
    cases heq
    refine ⟨Option.some.inj hip, ?_⟩
    exact congrArg (·.2.2) (Option.some.inj hreport)
  · rintro ⟨hip, hrssi⟩
    refine ⟨_, netDebug_readings _ _ _ _ _ _, hlink, congrArg some hip, ?_⟩
    show some (_, some _, _) = some (_, some _, _)
    exact congrArg some (Prod.ext htotals (Prod.ext (congrArg some hmatches) hrssi))

/-- Readings of an endpoint that is ready. -/
def readyReadings : NetReadings where
  state := 3
  link := 0
  raw := 0x0f00
  dhcp := 3
  probe := 63
  ipOctet := fun _ => 0
  scanStart := true
  scanTotal := 0
  scanMatch := 0
  scanRssi := 0

/-- A driver that is joined and has an address. -/
def joinedDriver (a b c d : UInt8) (scan : NetScan) : NetDriver :=
  ⟨lwipAddr a b c d, .ready, 3, scan⟩

/-- A record for the network "pico". -/
def picoRecord : RadioConfig := ⟨[112, 105, 99, 111], [], [], []⟩

/-- A result of the network "pico". -/
def picoResult (rssi : Int16) : ScanResult :=
  ⟨4, [112, 105, 99, 111] ++ List.replicate 28 0, rssi, by decide⟩

/-- The report of such a device, behind a scan of the network. -/
def joinedReport (a b c d : UInt8) (rssis : List Int16) : Option NetDebugReport :=
  let v := joinedDriver a b c d (netScanRun (netScanStarted picoRecord) picoRecord
    (rssis.map picoResult))
  let env : FrameEnv := { envAt 0 with net := some (v.readings readyReadings) }
  cmdNetDebug (receiptStatus benchDevice env) (receiptStatus benchDevice env)

/-- An address that reads the same from both ends, and two results. -/
theorem net_debug_iff_joined :
    ∃ report, joinedReport 10 0 0 10 [-60, -47] = some report ∧
      report.Tells [10, 0, 0, 10] 3 2 [-60, -47] :=
  (net_debug_iff benchDevice benchDevice (envAt 0) (envAt 0) readyReadings readyReadings
    (joinedDriver 10 0 0 10 (netScanRun (netScanStarted picoRecord) picoRecord
      [picoResult (-60), picoResult (-47)]))
    (joinedDriver 10 0 0 10 (netScanStarted picoRecord)) (netScanStarted picoRecord) picoRecord
    [picoResult (-60), picoResult (-47)] 10 0 0 10 (by decide) (by decide)).mpr (by decide)

/-- The address 192.168.1.185 comes out as 185.1.168.192; and behind a
result of RSSI 0 one of -50 is the best. -/
theorem net_debug_astray :
    (∃ report, joinedReport 192 168 1 185 [] = some report ∧
      report.ip = some [185, 1, 168, 192] ∧ ¬report.Tells [192, 168, 1, 185] 3 0 []) ∧
    ∃ report, joinedReport 10 0 0 10 [0, -50] = some report ∧
      report.scan = some (2, some 2, -50) ∧ ¬report.Tells [10, 0, 0, 10] 3 2 [0, -50] := by
  refine ⟨⟨_, rfl, by decide, fun h => ?_⟩, _, rfl, by decide, fun h => ?_⟩
  · exact absurd h.2.1 (by decide)
  · exact absurd h.2.2 (by decide)

end PicoBridge
