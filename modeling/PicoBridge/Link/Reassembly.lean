/-
What the BLE receiver hands over, over every run of writes: when the
command is put together of fragments 0, 1, ..., n.

# The numbers

A fragment's header carries its number so that a lost or repeated write
is noticed, and the receiver compares it with 0 only. So a command is
whole in the runs in which a write that continues one carries the number
after the one before it (`InSequence`): `Collected` is then what the
buffer holds, fragments 0 to the last number, all with MORE. With the
middle one of three fragments lost, the receiver hands over the other
two.
-/
import PicoBridge.Noise.Agreement
import PicoBridge.Device.Effect
import PicoBridge.Link.Ble

namespace PicoBridge

open Lib (Machine)

-- ============================================================ the fragments

/-- The number of a fragment. -/
def seqOf (fragment : List UInt8) : Nat := (byteOf fragment 0 >>> 1).toNat

/-- MORE, of a fragment. -/
def moreOf (fragment : List UInt8) : Prop := byteOf fragment 0 &&& bleFragMore ≠ 0

instance : DecidablePred moreOf := fun _ => inferInstanceAs (Decidable (_ ≠ _))

/-- Its data. -/
def dataOf (fragment : List UInt8) : List UInt8 := fragment.drop 1

/-- Fragments that are numbered 0, 1, ... in order. -/
def Numbered (fragments : List (List UInt8)) : Prop :=
  fragments.map seqOf = List.range fragments.length

/-- A command that is put together of fragments of a list of writes, in
their order: those are numbered from 0 on, and all but the last one have
MORE set. -/
def Assembled (writes : List (List UInt8)) (data : List UInt8) : Prop :=
  ∃ fragments last, (fragments ++ [last]).Sublist writes ∧ Numbered (fragments ++ [last]) ∧
    (∀ f ∈ fragments, moreOf f) ∧ ¬moreOf last ∧ data = (fragments ++ [last]).flatMap dataOf

/-- The writes among the events. -/
def writesOf (es : List BleEvent) : List (List UInt8) :=
  es.filterMap fun
    | .written buffer => some buffer
    | .handled _ => none

/-- What is asked of each event: a command that is handed over is
assembled of the writes up to it. -/
def Whole (es : List BleEvent) : BleEvent → Prop
  | .written _ => True
  | .handled data => Assembled (writesOf es) data

/-- A write that continues a command carries the number after the one of
the write before. -/
def InSequence (l : BleLink) (w : BleWrite) : Prop :=
  l.bleCmdActive → w.buffer ≠ [] → seqOf w.buffer ≠ 0 → seqOf w.buffer = l.lastSeq.toNat + 1

instance (l : BleLink) (w : BleWrite) : Decidable (InSequence l w) :=
  inferInstanceAs (Decidable (_ → _))

theorem numbered_last {fragments : List (List UInt8)} {last : List UInt8}
    (h : Numbered (fragments ++ [last])) : seqOf last = fragments.length := by
  unfold Numbered at h
  rw [List.map_append, List.length_append, List.length_singleton, List.range_succ] at h
  have hlast := List.append_inj_right' h rfl
  exact (List.cons.inj hlast).1

-- ================================================================= a write

variable (lib : Crypto)

/-- What a continued command goes on from. -/
def BleLink.base (l : BleLink) (buffer : List UInt8) : List UInt8 :=
  if seqOf buffer = 0 then [] else l.bleCmdBuf

theorem toNat_zero_iff (b : UInt8) : b.toNat = 0 ↔ b = 0 :=
  ⟨fun h => UInt8.toNat_inj.mp h, fun h => h ▸ rfl⟩

/-- A write of a fragment leaves no command, is taken with more to come,
or completes the command. -/
theorem cmdWriteCallback_cases (env : FrameEnv) (fragHdr : UInt8) (data : List UInt8)
    (l : BleLink) :
    let buffer := fragHdr :: data
    let r := cmdWriteCallback lib env buffer l
    (r.2 = none ∧ r.1.bleCmdActive = false) ∨
    (r = ({ l with
        lastSeq := fragHdr >>> 1
        bleCmdActive := true
        bleCmdBuf := l.base buffer ++ data }, none) ∧
      moreOf buffer ∧ (seqOf buffer ≠ 0 → l.bleCmdActive = true)) ∨
    (r.2 = some (l.base buffer ++ data) ∧ r.1.bleCmdActive = false ∧ ¬moreOf buffer ∧
      (seqOf buffer ≠ 0 → l.bleCmdActive = true)) := by
  have hseq : seqOf (fragHdr :: data) = 0 ↔ fragHdr >>> 1 = 0 := toNat_zero_iff _
  have hbase : (if fragHdr >>> 1 = 0 then [] else l.bleCmdBuf) = l.base (fragHdr :: data) := by
    unfold BleLink.base
    by_cases h : fragHdr >>> 1 = 0
    · rw [if_pos h, if_pos (hseq.mpr h)]
    · rw [if_neg h, if_neg (mt hseq.mp h)]
  dsimp only
  unfold cmdWriteCallback
  dsimp only
  by_cases hempty : fragHdr >>> 1 = 0 ∧ data.length < 1
  · rw [if_pos hempty]
    exact .inl ⟨rfl, rfl⟩
  · rw [if_neg hempty]
    by_cases hlate : fragHdr >>> 1 ≠ 0 ∧ ¬l.bleCmdActive = true
    · rw [if_pos hlate]
      exact .inl ⟨rfl, by simpa using hlate.2⟩
    · rw [if_neg hlate, hbase]
      have hactive : seqOf (fragHdr :: data) ≠ 0 → l.bleCmdActive = true := by
        intro hne
        by_contra hno
        exact hlate ⟨fun h0 => hne (hseq.mpr h0), hno⟩
      split
      · exact .inl ⟨rfl, rfl⟩
      · by_cases hmore : fragHdr &&& bleFragMore ≠ 0
        · rw [if_pos hmore]
          exact .inr (.inl ⟨rfl, hmore, hactive⟩)
        · rw [if_neg hmore]
          exact .inr (.inr ⟨rfl, rfl, hmore, hactive⟩)

-- ================================================================= the runs

theorem writesOf_append (es fs : List BleEvent) :
    writesOf (es ++ fs) = writesOf es ++ writesOf fs := List.filterMap_append

/-- What is in the buffer: fragments 0 to the last number, all with more
to come. -/
def Collected (l : BleLink) (es : List BleEvent) : Prop :=
  l.bleCmdActive = true →
    ∃ fragments, fragments.Sublist (writesOf es) ∧ Numbered fragments ∧
      fragments.length = l.lastSeq.toNat + 1 ∧ (∀ f ∈ fragments, moreOf f) ∧
      l.bleCmdBuf = fragments.flatMap dataOf

/-- The fragments before one that is taken. -/
theorem collected_base {l : BleLink} {es : List BleEvent} (h : Collected l es)
    {w : BleWrite} (hne : w.buffer ≠ []) (hin : InSequence l w)
    (hactive : seqOf w.buffer ≠ 0 → l.bleCmdActive = true) :
    ∃ fragments, (fragments ++ [w.buffer]).Sublist (writesOf (es ++ [.written w.buffer])) ∧
      Numbered (fragments ++ [w.buffer]) ∧ fragments.length = seqOf w.buffer ∧
      (∀ f ∈ fragments, moreOf f) ∧ l.base w.buffer = fragments.flatMap dataOf := by
  have hwrites : writesOf (es ++ [.written w.buffer]) = writesOf es ++ [w.buffer] :=
    writesOf_append _ _
  rw [hwrites]
  unfold BleLink.base
  by_cases hzero : seqOf w.buffer = 0
  · refine ⟨[], List.sublist_append_right _ _, ?_, hzero.symm, by simp, if_pos hzero⟩
    show [seqOf w.buffer] = [0]
    rw [hzero]
  · obtain ⟨fragments, hsub, hnum, hlen, hmore, hbuf⟩ := h (hactive hzero)
    have hnext := hin (hactive hzero) hne hzero
    refine ⟨fragments, hsub.append (List.Sublist.refl _), ?_, by omega, hmore, ?_⟩
    · unfold Numbered at hnum ⊢
      rw [List.map_append, hnum, List.length_append, List.length_singleton, List.range_succ,
        List.map_singleton, hnext, hlen]
    · rw [if_neg hzero, hbuf]

theorem collected_step {l : BleLink} {es : List BleEvent} (h : Collected l es) {w : BleWrite}
    (hin : InSequence l w) :
    let r := bleStep lib l w
    Collected r.1 (es ++ r.2) := by
  unfold bleStep
  dsimp only
  cases hbuf : w.buffer with
  | nil =>
      intro hactive
      obtain ⟨fragments, hsub, hrest⟩ := h hactive
      refine ⟨fragments, ?_, hrest⟩
      rw [writesOf_append]
      exact hsub.trans (List.sublist_append_left _ _)
  | cons fragHdr data =>
      rcases cmdWriteCallback_cases lib w.env fragHdr data l with
        ⟨-, hoff⟩ | ⟨hr, hmore, hactive⟩ | ⟨-, hoff, -⟩
      · intro hon
        rw [hoff] at hon
        cases hon
      · rw [hr]
        intro _
        rw [← hbuf] at hmore hactive
        obtain ⟨fragments, hsub, hnum, hlen, hall, hbase⟩ :=
          collected_base h (by rw [hbuf]; simp) hin hactive
        rw [hbuf] at hsub hnum hbase hlen hmore
        refine ⟨_, hsub, hnum, ?_, ?_, ?_⟩
        · rw [List.length_append, List.length_singleton, hlen]
          rfl
        · intro f hf
          rcases List.mem_append.mp hf with hf | hf
          · exact hall f hf
          · rw [List.mem_singleton.mp hf]
            exact hmore
        · rw [List.flatMap_append, ← hbase]
          simp [dataOf]
      · intro hon
        rw [hoff] at hon
        cases hon

theorem whole_out {l : BleLink} {es : List BleEvent} (h : Collected l es) {w : BleWrite}
    (hin : InSequence l w) {pre post : List BleEvent} {e : BleEvent}
    (hout : (bleStep lib l w).2 = pre ++ e :: post) : Whole (es ++ pre) e := by
  unfold bleStep at hout
  dsimp only at hout
  cases e with
  | written _ => trivial
  | handled data =>
      cases pre with
      | nil => cases (List.cons.inj hout).1
      | cons e' pre =>
          obtain ⟨rfl, hrest⟩ := List.cons.inj hout
          cases hbuf : w.buffer with
          | nil =>
              rw [hbuf] at hrest
              exact absurd hrest (by simp [cmdWriteCallback])
          | cons fragHdr bytes =>
              rw [hbuf] at hrest
              rcases cmdWriteCallback_cases lib w.env fragHdr bytes l with
                ⟨hnone, -⟩ | ⟨hr, -⟩ | ⟨hsome, -, hlast, hactive⟩
              · rw [hnone] at hrest
                exact absurd hrest (by simp)
              · rw [hr] at hrest
                exact absurd hrest (by simp)
              · rw [hsome] at hrest
                obtain ⟨rfl, hdata, -⟩ := Machine.singleton_split hrest
                cases hdata
                rw [← hbuf] at hlast hactive
                obtain ⟨fragments, hsub, hnum, -, hall, hbase⟩ :=
                  collected_base h (by rw [hbuf]; simp) hin hactive
                rw [hbuf] at hsub hnum hbase hlast
                refine ⟨fragments, _, hsub, hnum, hall, hlast, ?_⟩
                rw [List.flatMap_append, ← hbase]
                simp [dataOf]

/-- Reassembly, over every run of writes from a link with no command
begun: where each write that continues a command carries the number
after the one before, whatever is handed over is assembled of fragments
0, 1, ..., n. -/
theorem commands_whole (l : BleLink) (hidle : l.bleCmdActive = false) (ws : List BleWrite)
    (hin : (bleMachine lib).StepsMeet InSequence l ws) {pre post : List BleEvent} {e : BleEvent}
    (hrun : (bleMachine lib).trace l ws = pre ++ e :: post) : Whole pre e := by
  have hstart : Collected l [] := by
    intro hon
    rw [hidle] at hon
    cases hon
  exact (bleMachine lib).trace_past (G := InSequence) (P := Collected) (Q := Whole)
    (fun _ _ _ h hin => collected_step lib h hin)
    (fun _ _ _ h hin _ _ _ hout => whole_out lib h hin hout) ws l [] hstart hin pre e post hrun

/-- A packet of three fragments. -/
def threeFragments : List UInt8 := (List.range 57).map UInt8.ofNat

/-- A fragment of it, as the host writes it. -/
def threeWrite (k : Nat) : BleWrite :=
  ⟨envAt 1000, ((fragmentPacket threeFragments).getD []).getD k []⟩

/-- A characteristic that no one has written to. -/
def benchLink : BleLink where
  device := benchDevice
  bleCmdBuf := []
  bleCmdActive := false
  cmdCharRead := none
  lastSeq := 0

theorem commands_whole_threeFragments :
    Whole [.written (threeWrite 0).buffer, .written (threeWrite 1).buffer,
      .written (threeWrite 2).buffer] (.handled threeFragments) :=
  @commands_whole (toyCrypto none) benchLink rfl [threeWrite 0, threeWrite 1, threeWrite 2]
    (by decide +kernel) _ [] _ (by decide +kernel)

/-- The middle one of three fragments is lost, and the other two are
handed over as a command. -/
theorem lost_fragment_handled :
    fragmentPacket threeFragments
        = some [(threeWrite 0).buffer, (threeWrite 1).buffer, (threeWrite 2).buffer] ∧
      ¬∀ pre e post, (bleMachine (toyCrypto none)).trace benchLink [threeWrite 0, threeWrite 2]
        = pre ++ e :: post → Whole pre e := by
  refine ⟨by decide +kernel, fun h => ?_⟩
  have htrace : (bleMachine (toyCrypto none)).trace benchLink [threeWrite 0, threeWrite 2]
      = [.written (threeWrite 0).buffer, .written (threeWrite 2).buffer]
        ++ .handled (dataOf (threeWrite 0).buffer ++ dataOf (threeWrite 2).buffer) :: [] := by
    decide +kernel
  obtain ⟨fragments, last, hsub, hnum, -, hlast, -⟩ := h _ _ _ htrace
  have hlen := hsub.length_le
  rw [List.length_append, List.length_singleton] at hlen
  have hmem : last ∈ [(threeWrite 0).buffer, (threeWrite 2).buffer] :=
    hsub.subset (List.mem_append.mpr (.inr (List.mem_singleton_self last)))
  have hearly : seqOf last ≤ 1 := by
    rw [numbered_last hnum]
    exact Nat.le_of_succ_le_succ hlen
  have hmore : ∀ w ∈ [(threeWrite 0).buffer, (threeWrite 2).buffer], seqOf w ≤ 1 → moreOf w := by
    decide +kernel
  exact hlast (hmore last hmem hearly)

end PicoBridge
