/-
Loops that move an index over a list: `while (i < stop && test(i)) i++` and
its mirror.

A read past the end is `none`, and so is the loop that makes it. Over a
segment of the list that is known (`At`), the loop is `takeWhile`.
-/
import Mathlib.Data.List.DropRight

namespace Lib.Cursor

variable {α : Type*}

-- =============================================================== the loops

/-- `while (i < stop && test(i)) i++`. -/
def advance (test : Nat → Option Bool) (stop i : Nat) : Option Nat :=
  if i < stop then do
    let pass ← test i
    if pass then advance test stop (i + 1) else some i
  else some i
termination_by stop - i

/-- `while (i > low && test(i - 1)) i--`. -/
def retreat (test : Nat → Option Bool) (low i : Nat) : Option Nat :=
  if low < i then do
    let pass ← test (i - 1)
    if pass then retreat test low (i - 1) else some i
  else some i
termination_by i - low

-- ============================================================ the segments

/-- A list has a segment at an index. -/
def At (p : List α) (i : Nat) (s : List α) : Prop := s <+: p.drop i

theorem at_append {p s t : List α} {i : Nat} (h : At p i (s ++ t)) :
    At p i s ∧ At p (i + s.length) t := by
  obtain ⟨rest, hrest⟩ := h
  refine ⟨⟨t ++ rest, by rw [← hrest, List.append_assoc]⟩, rest, ?_⟩
  rw [← List.drop_drop, ← hrest, List.append_assoc, List.drop_left]

theorem at_cons {p s : List α} {c : α} {i : Nat} (h : At p i (c :: s)) :
    p[i]? = some c ∧ At p (i + 1) s := by
  refine ⟨?_, (@at_append _ p [c] s i h).2⟩
  obtain ⟨rest, hrest⟩ := h
  have hhead : (p.drop i).head? = some c := by rw [← hrest]; rfl
  rwa [List.head?_drop] at hhead

theorem At.mono {p s t : List α} {i : Nat} (h : At p i s) (ht : t <+: s) : At p i t := ht.trans h

theorem At.take {p s : List α} {i : Nat} (h : At p i s) : (p.drop i).take s.length = s := by
  obtain ⟨rest, hrest⟩ := h
  rw [← hrest, List.take_left]

theorem At.le {p s : List α} {i : Nat} (h : At p i s) (hne : s ≠ []) :
    i + s.length ≤ p.length := by
  have hle := h.length_le
  have hpos := List.length_pos_iff.mpr hne
  rw [List.length_drop] at hle
  omega

-- ============================================================= the meaning

/-- Up to the end of a segment: what passes at its head. -/
theorem advance_takeWhile {p : List α} (q : α → Bool) (s : List α) : ∀ {i : Nat}, At p i s →
    advance (fun j => p[j]?.map q) (i + s.length) i = some (i + (s.takeWhile q).length) := by
  induction s with
  | nil =>
      intro i _
      rw [advance, if_neg (by simp)]
      rfl
  | cons c s ih =>
      intro i h
      obtain ⟨hc, hs⟩ := at_cons h
      have hnext := ih hs
      rw [List.length_cons, advance, if_pos (by omega), hc]
      cases hq : q c with
      | false =>
          rw [List.takeWhile_cons, hq]
          simp [hq]
      | true =>
          rw [List.takeWhile_cons, hq, if_pos rfl, List.length_cons]
          rw [Nat.add_right_comm, Nat.add_assoc] at hnext
          simp only [Option.map_some, Option.bind_eq_bind, Option.bind_some, hq, if_true, hnext]
          congr 1
          omega

/-- To the first index that does not pass. -/
theorem advance_to {test : Nat → Option Bool} {stop k : Nat} (hk : k ≤ stop)
    (hend : k < stop → test k = some false) {i : Nat} (hik : i ≤ k) :
    (∀ j, i ≤ j → j < k → test j = some true) → advance test stop i = some k := by
  induction hik using Nat.decreasingInduction with
  | self =>
      intro _
      rw [advance]
      split
      next hlt =>
        rw [hend hlt]
        rfl
      · rfl
  | of_succ i hi ih =>
      intro hpass
      rw [advance, if_pos (by omega), hpass i (Nat.le_refl i) hi]
      exact ih fun j hj hjk => hpass j (by omega) hjk

/-- Over a segment that passes, to a byte that does not. -/
theorem advance_over {p : List α} {q : α → Bool} {c : α} {stop : Nat} (s : List α)
    (hs : ∀ b ∈ s, q b = true) (hc : q c = false) : ∀ {i : Nat}, At p i (s ++ [c]) →
    i + s.length ≤ stop → advance (fun j => p[j]?.map q) stop i = some (i + s.length) := by
  induction s with
  | nil =>
      intro i h _
      obtain ⟨hread, -⟩ := at_cons h
      rw [advance]
      split
      · rw [hread]
        simp [hc]
      · rfl
  | cons b s ih =>
      intro i h hstop
      obtain ⟨hread, hrest⟩ := at_cons h
      rw [List.length_cons] at hstop
      rw [advance, if_pos (by omega), hread]
      simp only [Option.map_some, Option.bind_eq_bind, Option.bind_some, hs b List.mem_cons_self,
        if_true]
      rw [ih (fun c hc => hs c (List.mem_cons_of_mem b hc)) hrest (by omega), List.length_cons]
      congr 1
      omega

/-- Back over what passes at the end of a segment. -/
theorem retreat_rdropWhile {p : List α} (q : α → Bool) (s : List α) : ∀ {i : Nat}, At p i s →
    retreat (fun j => p[j]?.map q) i (i + s.length) = some (i + (s.rdropWhile q).length) := by
  induction s using List.reverseRecOn with
  | nil =>
      intro i _
      rw [retreat, if_neg (by simp)]
      rfl
  | append_singleton s c ih =>
      intro i h
      obtain ⟨hs, hlast⟩ := at_append h
      obtain ⟨hread, -⟩ := at_cons hlast
      have hlength : i + (s ++ [c]).length = i + s.length + 1 := by
        rw [List.length_append, List.length_singleton, Nat.add_assoc]
      rw [hlength, retreat, if_pos (by omega), Nat.add_sub_cancel, hread]
      cases hq : q c with
      | false =>
          rw [List.rdropWhile_concat_neg _ _ _ (by rw [hq]; decide), hlength]
          simp [hq]
      | true =>
          rw [List.rdropWhile_concat_pos _ _ _ hq]
          simp only [Option.map_some, Option.bind_eq_bind, Option.bind_some, hq, if_true, ih hs]

end Lib.Cursor
