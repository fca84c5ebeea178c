/-
A memory that is read and written in pieces.

`Laid m i parts` says that a memory holds some parts end to end from an
address. It is the same as holding their concatenation (`laid_iff`), so a
record of many fields is written and recognised one field at a time.
-/
import Mathlib.Data.List.OfFn

namespace Lib.Layout

variable {β : Type*}

/-- `n` places from an address. -/
def slice (m : Nat → β) (i n : Nat) : List β := (List.range n).map fun k => m (i + k)

@[simp] theorem slice_length (m : Nat → β) (i n : Nat) : (slice m i n).length = n := by
  rw [slice, List.length_map, List.length_range]

@[simp] theorem slice_zero (m : Nat → β) (i : Nat) : slice m i 0 = [] := rfl

theorem slice_add (m : Nat → β) (i a b : Nat) :
    slice m i (a + b) = slice m i a ++ slice m (i + a) b := by
  unfold slice
  rw [List.range_add, List.map_append, List.map_map]
  congr 1
  exact List.map_congr_left fun k _ => by rw [Function.comp_apply, Nat.add_assoc]

theorem slice_succ (m : Nat → β) (i n : Nat) : slice m i (n + 1) = m i :: slice m (i + 1) n := by
  rw [Nat.add_comm n 1, slice_add]
  rfl

theorem slice_congr {m m' : Nat → β} {i n : Nat} (h : ∀ k < n, m (i + k) = m' (i + k)) :
    slice m i n = slice m' i n :=
  List.map_congr_left fun k hk => h k (List.mem_range.mp hk)

theorem slice_inj {m m' : Nat → β} {i n : Nat} (h : slice m i n = slice m' i n) :
    ∀ k < n, m (i + k) = m' (i + k) :=
  fun k hk => List.map_inj_left.mp h k (List.mem_range.mpr hk)

theorem getElem_slice (m : Nat → β) (i : Nat) {n k : Nat} (h : k < (slice m i n).length) :
    (slice m i n)[k] = m (i + k) := by
  simp [slice]

/-- A finite memory, as a list. -/
theorem ofFn_eq_slice {n : Nat} {f : Fin n → β} {m : Nat → β} (h : ∀ i : Fin n, m i = f i) :
    List.ofFn f = slice m 0 n := by
  refine List.ext_getElem (by rw [List.length_ofFn, slice_length]) fun k hk hk' => ?_
  rw [List.getElem_ofFn, getElem_slice, Nat.zero_add]
  exact (h ⟨k, by rwa [List.length_ofFn] at hk⟩).symm

theorem take_drop_slice (m : Nat → β) {i n a b : Nat} (h : a + b ≤ n) :
    ((slice m i n).drop a).take b = slice m (i + a) b := by
  obtain ⟨c, rfl⟩ := Nat.exists_eq_add_of_le h
  rw [Nat.add_assoc, slice_add, slice_add, List.drop_left' (slice_length m i a),
    List.take_left' (slice_length m (i + a) b)]

-- =============================================================== the parts

/-- The parts, end to end from an address. -/
def Laid (m : Nat → β) (i : Nat) : List (List β) → Prop
  | [] => True
  | part :: parts => slice m i part.length = part ∧ Laid m (i + part.length) parts

@[simp] theorem laid_nil (m : Nat → β) (i : Nat) : Laid m i [] ↔ True := Iff.rfl

@[simp] theorem laid_cons (m : Nat → β) (i : Nat) (part : List β) (parts : List (List β)) :
    Laid m i (part :: parts) ↔ slice m i part.length = part ∧ Laid m (i + part.length) parts :=
  Iff.rfl

/-- They are their concatenation. -/
theorem laid_iff (m : Nat → β) (parts : List (List β)) : ∀ i,
    Laid m i parts ↔ slice m i parts.flatten.length = parts.flatten := by
  induction parts with
  | nil => exact fun i => iff_of_true trivial rfl
  | cons part parts ih =>
      intro i
      rw [laid_cons, ih, List.flatten_cons, List.length_append, slice_add]
      constructor
      · rintro ⟨hpart, hparts⟩
        rw [hpart, hparts]
      · intro h
        exact List.append_inj h (slice_length m i part.length)

theorem laid_append (m : Nat → β) (parts parts' : List (List β)) : ∀ i,
    Laid m i (parts ++ parts') ↔ Laid m i parts ∧ Laid m (i + parts.flatten.length) parts' := by
  induction parts with
  | nil => exact fun i => (iff_of_eq (true_and _)).symm
  | cons part parts ih =>
      intro i
      rw [List.cons_append, laid_cons, laid_cons, ih, and_assoc, List.flatten_cons,
        List.length_append, Nat.add_assoc]

-- ============================================================== the writes

/-- A memory with some places written. -/
def write (m : Nat → β) (i : Nat) (part : List β) : Nat → β :=
  fun k => (if i ≤ k then part[k - i]? else none).getD (m k)

/-- They hold what was written. -/
theorem slice_write (m : Nat → β) (i : Nat) (part : List β) :
    slice (write m i part) i part.length = part := by
  refine List.ext_getElem (slice_length _ _ _) fun k hk hpart => ?_
  rw [getElem_slice, write, if_pos (Nat.le_add_right i k), Nat.add_sub_cancel_left,
    List.getElem?_eq_getElem hpart, Option.getD_some]

/-- The others are as they were. -/
theorem slice_write_frame (m : Nat → β) {i j n : Nat} {part : List β}
    (h : j + n ≤ i ∨ i + part.length ≤ j) : slice (write m i part) j n = slice m j n := by
  refine slice_congr fun k hk => ?_
  unfold write
  split
  next hle =>
    rw [List.getElem?_eq_none (by omega)]
    rfl
  next => rfl

/-- Two writes that do not touch. -/
def Apart (w w' : Nat × List β) : Prop := w.1 + w.2.length ≤ w'.1 ∨ w'.1 + w'.2.length ≤ w.1

instance (w w' : Nat × List β) : Decidable (Apart w w') := inferInstanceAs (Decidable (_ ∨ _))

/-- Writes, one after another. -/
def writeAll (m : Nat → β) (ws : List (Nat × List β)) : Nat → β :=
  ws.foldl (fun m w => write m w.1 w.2) m

/-- A place depends on what it held alone. -/
theorem writeAll_congr {k : Nat} (ws : List (Nat × List β)) : ∀ {m m' : Nat → β},
    m k = m' k → writeAll m ws k = writeAll m' ws k := by
  induction ws with
  | nil => exact fun h => h
  | cons w ws ih =>
      intro m m' h
      exact @ih (write m w.1 w.2) (write m' w.1 w.2) (congrArg _ h)

theorem slice_writeAll_frame {i n : Nat} (ws : List (Nat × List β)) : ∀ {m : Nat → β},
    (∀ w ∈ ws, i + n ≤ w.1 ∨ w.1 + w.2.length ≤ i) →
      slice (writeAll m ws) i n = slice m i n := by
  induction ws with
  | nil => exact fun _ => rfl
  | cons w ws ih =>
      intro m h
      have htail := @ih (write m w.1 w.2) fun w' hw' => h w' (List.mem_cons_of_mem w hw')
      exact htail.trans (slice_write_frame m (h w List.mem_cons_self))

/-- Writes that do not touch are all held. -/
theorem slice_writeAll {w : Nat × List β} (ws : List (Nat × List β)) : ∀ {m : Nat → β},
    ws.Pairwise Apart → w ∈ ws → slice (writeAll m ws) w.1 w.2.length = w.2 := by
  induction ws with
  | nil => exact fun _ hmem => absurd hmem List.not_mem_nil
  | cons w' ws ih =>
      intro m hapart hmem
      obtain ⟨hhead, htail⟩ := List.pairwise_cons.mp hapart
      rcases List.mem_cons.mp hmem with rfl | hmem
      · refine (slice_writeAll_frame ws fun w' hw' => ?_).trans (slice_write m w.1 w.2)
        exact hhead w' hw'
      · exact @ih (write m w'.1 w'.2) htail hmem

end Lib.Layout
