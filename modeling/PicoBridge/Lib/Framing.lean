/-
Length-prefixed framing of a stream, over arbitrary symbols: what the
frames of a stream are, and that a reader that is fed symbol by symbol
finds exactly them, however the stream is cut.

# The two readings

`Format.frames` reads a whole stream: a header of fixed length, whose
size field may be refused, then as many symbols as it says, then the
next header. It returns the frames and what is left unfinished, or
nothing where a header was refused. `Format.push` is the reader of one
symbol, with the unfinished frame as its state; `Format.read` runs it.

`Format.read_eq_frames` is the agreement of the two, and
`Format.read_append` makes the reader indifferent to where the stream is
cut.
-/
import Mathlib.Data.List.Basic
import Mathlib.Tactic

namespace Lib

variable {α : Type*}

-- ============================================================= the format

/-- A header length, and the size that a header announces, where it is
not refused. No frame is empty. -/
structure Format (α : Type*) where
  header : Nat
  size : List α → Option Nat
  header_pos : 0 < header
  size_pos : ∀ h n, size h = some n → 0 < n

namespace Format

variable (F : Format α)

/-- One symbol, into the unfinished frame: the frame it finishes. A reader
that refused a header reads no more. -/
def push : Option (List α) → α → Option (List α) × List (List α)
  | none, _ => (none, [])
  | some buf, a =>
      if (buf ++ [a]).length < F.header then (some (buf ++ [a]), [])
      else
        match F.size ((buf ++ [a]).take F.header) with
        | none => (none, [])
        | some n =>
            if (buf ++ [a]).length = F.header + n then (some [], [(buf ++ [a]).drop F.header])
            else (some (buf ++ [a]), [])

/-- The reader, run: what it is left with and the frames it found. -/
def read : Option (List α) → List α → Option (List α) × List (List α)
  | r, [] => (r, [])
  | r, a :: as => ((read (F.push r a).1 as).1, (F.push r a).2 ++ (read (F.push r a).1 as).2)

/-- The frames of a stream, and its unfinished rest. -/
def frames (s : List α) : List (List α) × Option (List α) :=
  if _h : s.length < F.header then ([], some s)
  else
    match _hn : F.size (s.take F.header) with
    | none => ([], none)
    | some n =>
        if s.length < F.header + n then ([], some s)
        else
          let rest := frames (s.drop (F.header + n))
          ((s.drop F.header).take n :: rest.1, rest.2)
termination_by s.length
decreasing_by
  have := F.header_pos
  rw [List.length_drop]
  omega

-- ============================================================== the reader

@[simp] theorem read_nil (r : Option (List α)) : F.read r [] = (r, []) := rfl

theorem read_cons (r : Option (List α)) (a : α) (as : List α) :
    F.read r (a :: as)
      = ((F.read (F.push r a).1 as).1, (F.push r a).2 ++ (F.read (F.push r a).1 as).2) := rfl

theorem read_singleton (r : Option (List α)) (a : α) : F.read r [a] = F.push r a := by
  rw [read_cons, read_nil, List.append_nil]

/-- The reader does not see where a stream is cut. -/
theorem read_append (r : Option (List α)) (as bs : List α) :
    F.read r (as ++ bs)
      = ((F.read (F.read r as).1 bs).1, (F.read r as).2 ++ (F.read (F.read r as).1 bs).2) := by
  induction as generalizing r with
  | nil => rfl
  | cons a as ih =>
      rw [List.cons_append, read_cons, ih, read_cons]
      simp only [List.append_assoc]

@[simp] theorem read_none (as : List α) : F.read none as = (none, []) := by
  induction as with
  | nil => rfl
  | cons a as ih =>
      rw [read_cons]
      show ((F.read none as).1, [] ++ (F.read none as).2) = _
      rw [ih]
      rfl

/-- A frame that is not finished: its header is short, or announces more
than there is. -/
def Unfinished (buf : List α) : Prop :=
  buf.length < F.header ∨ ∃ n, F.size (buf.take F.header) = some n ∧ buf.length < F.header + n

theorem unfinished_nil : F.Unfinished [] := .inl F.header_pos

variable {F}

/-- So is every part of it. -/
theorem Unfinished.left {buf as : List α} (h : F.Unfinished (buf ++ as)) : F.Unfinished buf := by
  by_cases hshort : buf.length < F.header
  · exact .inl hshort
  · rcases h with hlen | ⟨n, hsize, hlen⟩
    · rw [List.length_append] at hlen
      omega
    · refine .inr ⟨n, ?_, ?_⟩
      · rwa [List.take_append_of_le_length (Nat.not_lt.mp hshort)] at hsize
      · rw [List.length_append] at hlen
        omega

/-- A symbol that does not finish the frame. -/
theorem push_unfinished {buf : List α} {a : α} (h : F.Unfinished (buf ++ [a])) :
    F.push (some buf) a = (some (buf ++ [a]), []) := by
  unfold push
  dsimp only
  rcases h with hshort | ⟨n, hsize, hlen⟩
  · rw [if_pos hshort]
  · by_cases hshort : (buf ++ [a]).length < F.header
    · rw [if_pos hshort]
    · rw [if_neg hshort, hsize]
      dsimp only
      rw [if_neg (by omega)]

/-- One that does. -/
theorem push_finished {buf : List α} {a : α} {n : Nat}
    (hsize : F.size ((buf ++ [a]).take F.header) = some n)
    (hlen : (buf ++ [a]).length = F.header + n) :
    F.push (some buf) a = (some [], [(buf ++ [a]).drop F.header]) := by
  unfold push
  dsimp only
  rw [if_neg (by omega), hsize]
  dsimp only
  rw [if_pos hlen]

/-- One that completes a header that is refused. -/
theorem push_refused {buf : List α} {a : α} (hlen : F.header ≤ (buf ++ [a]).length)
    (hsize : F.size ((buf ++ [a]).take F.header) = none) :
    F.push (some buf) a = (none, []) := by
  unfold push
  dsimp only
  rw [if_neg (by omega), hsize]

theorem read_unfinished {as : List α} : ∀ {buf : List α}, F.Unfinished (buf ++ as) →
    F.read (some buf) as = (some (buf ++ as), []) := by
  induction as with
  | nil =>
      intro buf _
      rw [read_nil, List.append_nil]
  | cons a as ih =>
      intro buf h
      rw [List.append_cons] at h ⊢
      rw [read_cons, push_unfinished h.left, ih h]
      rfl

/-- A frame, read to its end. -/
theorem read_frame {s : List α} {n : Nat} (hsize : F.size (s.take F.header) = some n)
    (hlen : s.length = F.header + n) : F.read (some []) s = (some [], [s.drop F.header]) := by
  have hpos := F.size_pos _ _ hsize
  obtain ⟨init, a, rfl⟩ : ∃ init a, s = init ++ [a] := by
    rcases List.eq_nil_or_concat s with rfl | ⟨init, a, hs⟩
    · rw [List.length_nil] at hlen
      omega
    · exact ⟨init, a, hs.trans List.concat_eq_append⟩
  rw [List.length_append, List.length_singleton] at hlen
  have hinit : F.Unfinished ([] ++ init) := by
    refine .inr ⟨n, ?_, ?_⟩
    · rw [List.nil_append]
      rwa [List.take_append_of_le_length (by omega)] at hsize
    · rw [List.nil_append]
      omega
  rw [read_append, read_unfinished hinit, List.nil_append, read_cons,
    push_finished hsize (by rw [List.length_append, List.length_singleton]; omega)]
  rfl

/-- A stream whose header is refused. -/
theorem read_refused {s : List α} (hlen : F.header ≤ s.length)
    (hsize : F.size (s.take F.header) = none) : F.read (some []) s = (none, []) := by
  have hpos := F.header_pos
  obtain ⟨init, a, htake⟩ : ∃ init a, s.take F.header = init ++ [a] := by
    rcases List.eq_nil_or_concat (s.take F.header) with hnil | ⟨init, a, hs⟩
    · have := congrArg List.length hnil
      rw [List.length_take, List.length_nil] at this
      omega
    · exact ⟨init, a, hs.trans List.concat_eq_append⟩
  have hcut : (init ++ [a]).length = F.header := by
    rw [← htake, List.length_take]
    omega
  have hinit : F.Unfinished ([] ++ init) := by
    refine .inl ?_
    rw [List.length_append, List.length_singleton] at hcut
    rw [List.nil_append]
    omega
  have hrefused : F.push (some init) a = (none, []) := by
    refine push_refused (by omega) ?_
    rw [List.take_of_length_le (by omega), ← htake]
    exact hsize
  rw [← List.take_append_drop F.header s, htake, read_append, read_append,
    read_unfinished hinit, List.nil_append, read_cons, hrefused, read_nil, read_none]
  rfl

variable (F)

/-- Fed symbol by symbol, the reader finds the frames of the stream. -/
theorem read_eq_frames (s : List α) : F.read (some []) s = ((F.frames s).2, (F.frames s).1) := by
  induction s using frames.induct F with
  | case1 s hshort =>
      unfold frames
      rw [dif_pos hshort]
      exact read_unfinished (.inl hshort)
  | case2 s hlong hsize =>
      unfold frames
      rw [dif_neg hlong]
      split
      next => exact read_refused (Nat.not_lt.mp hlong) hsize
      next n hn =>
        rw [hsize] at hn
        cases hn
  | case3 s hlong n hsize hlen =>
      unfold frames
      rw [dif_neg hlong]
      split
      next hn =>
        rw [hsize] at hn
        cases hn
      next m hm =>
        rw [hsize] at hm
        cases hm
        rw [if_pos hlen]
        exact read_unfinished (.inr ⟨n, hsize, hlen⟩)
  | case4 s hlong n hsize hlen ih =>
      unfold frames
      rw [dif_neg hlong]
      split
      next hn =>
        rw [hsize] at hn
        cases hn
      next m hm =>
        rw [hsize] at hm
        cases hm
        rw [if_neg hlen]
        dsimp only
        have hfirst : F.read (some []) (s.take (F.header + n))
            = (some [], [(s.drop F.header).take n]) := by
          have htake : (s.take (F.header + n)).take F.header = s.take F.header := by
            rw [List.take_take, Nat.min_eq_left (Nat.le_add_right _ _)]
          have hread := read_frame (F := F) (s := s.take (F.header + n)) (n := n)
            (by rw [htake]; exact hsize) (by rw [List.length_take]; omega)
          rw [hread, List.drop_take, Nat.add_sub_cancel_left]
        conv_lhs => rw [← List.take_append_drop (F.header + n) s]
        rw [read_append, hfirst, ih]
        rfl

end Format

end Lib
