/-
Blocking reads of a framed stream, over arbitrary symbols: a reader that
asks for so many symbols, and is given fewer.

# The inlet

An `Inlet` has what is still to come of a stream, and how much of it each
read finds. A read takes no more than it was asked for, and no less than
one symbol unless the stream is over. When the finds run out the reader
has waited too long. `Inlet.exact` is the loop that reads until it has so
many symbols.

# The reader

`Format.pull` reads a header and then the frame that it announces.
Where `Format.push` is fed and keeps its place in a buffer, this one asks
and keeps its place in the program; `Format.pulls_frames` says that it
finds the same frames, and `Format.pulls_total` that it finds all that
are there, however the reads are cut.
-/
import PicoBridge.Lib.Framing

namespace Lib

variable {α : Type*}

-- ============================================================== the inlet

/-- What is to come of a stream, and how much of it each read finds, but
for the one symbol that every read waits for. -/
structure Inlet (α : Type*) where
  rest : List α
  finds : List Nat

/-- What a reader raises. -/
inductive PullError
  | closed
  | late
  | refused
  deriving DecidableEq

/-- Reads until there are `n` symbols, with those that there are. -/
def exactFrom (n : Nat) : List Nat → List α → List α → Except PullError (List α) × Inlet α
  | [], rest, buf => if buf.length < n then (.error .late, ⟨rest, []⟩) else (.ok buf, ⟨rest, []⟩)
  | found :: finds, rest, buf =>
      if buf.length < n then
        let m := min (n - buf.length) (found + 1)
        if rest.take m = [] then (.error .closed, ⟨rest, finds⟩)
        else exactFrom n finds (rest.drop m) (buf ++ rest.take m)
      else (.ok buf, ⟨rest, found :: finds⟩)

/-- Reads `n` symbols. -/
def Inlet.exact (n : Nat) (s : Inlet α) : Except PullError (List α) × Inlet α :=
  exactFrom n s.finds s.rest []

/-- What was read is what came, and the rest is still to come. -/
theorem exactFrom_ok {n : Nat} (finds : List Nat) : ∀ {rest buf bytes : List α} {s : Inlet α},
    buf.length ≤ n → exactFrom n finds rest buf = (.ok bytes, s) →
    bytes.length = n ∧ buf ++ rest = bytes ++ s.rest := by
  induction finds with
  | nil =>
      intro rest buf bytes s hle h
      unfold exactFrom at h
      by_cases hshort : buf.length < n
      · rw [if_pos hshort] at h
        cases h
      · rw [if_neg hshort] at h
        cases h
        exact ⟨by omega, rfl⟩
  | cons found finds ih =>
      intro rest buf bytes s hle h
      unfold exactFrom at h
      by_cases hshort : buf.length < n
      · rw [if_pos hshort] at h
        dsimp only at h
        split at h
        · cases h
        · have hchunk := List.length_take_le (min (n - buf.length) (found + 1)) rest
          obtain ⟨hlen, hkept⟩ := ih (by rw [List.length_append]; omega) h
          refine ⟨hlen, ?_⟩
          rw [← hkept, List.append_assoc, List.take_append_drop]
      · rw [if_neg hshort] at h
        cases h
        exact ⟨by omega, rfl⟩

/-- Enough symbols and a read for each of them are enough. -/
theorem exactFrom_total {n : Nat} (finds : List Nat) : ∀ {rest buf : List α},
    buf.length ≤ n → n - buf.length ≤ rest.length → n - buf.length ≤ finds.length →
    ∃ bytes s, exactFrom n finds rest buf = (.ok bytes, s) ∧
      finds.length ≤ s.finds.length + (n - buf.length) := by
  induction finds with
  | nil =>
      intro rest buf hle _ hfinds
      rw [List.length_nil] at hfinds
      refine ⟨buf, ⟨rest, []⟩, ?_, Nat.zero_le _⟩
      unfold exactFrom
      rw [if_neg (by omega)]
  | cons found finds ih =>
      intro rest buf hle hrest hfinds
      rw [List.length_cons] at hfinds
      unfold exactFrom
      by_cases hshort : buf.length < n
      · rw [if_pos hshort]
        dsimp only
        have hchunk : (rest.take (min (n - buf.length) (found + 1))).length
            = min (n - buf.length) (found + 1) := by
          rw [List.length_take]
          omega
        have hsome : rest.take (min (n - buf.length) (found + 1)) ≠ [] := by
          intro hnil
          rw [hnil, List.length_nil] at hchunk
          omega
        rw [if_neg hsome]
        obtain ⟨bytes, s, hread, hleft⟩ := @ih
          (rest.drop (min (n - buf.length) (found + 1)))
          (buf ++ rest.take (min (n - buf.length) (found + 1)))
          (by rw [List.length_append]; omega)
          (by rw [List.length_append, List.length_drop]; omega)
          (by rw [List.length_append]; omega)
        refine ⟨bytes, s, hread, ?_⟩
        rw [List.length_append] at hleft
        rw [List.length_cons]
        omega
      · rw [if_neg hshort]
        exact ⟨buf, ⟨rest, found :: finds⟩, rfl, Nat.le_add_right _ _⟩

theorem Inlet.exact_ok {n : Nat} {s s' : Inlet α} {bytes : List α}
    (h : s.exact n = (.ok bytes, s')) : bytes.length = n ∧ s.rest = bytes ++ s'.rest :=
  exactFrom_ok s.finds (Nat.zero_le n) h

theorem Inlet.exact_total {n : Nat} {s : Inlet α} (hrest : n ≤ s.rest.length)
    (hfinds : n ≤ s.finds.length) :
    ∃ bytes s', s.exact n = (.ok bytes, s') ∧ s.finds.length ≤ s'.finds.length + n :=
  exactFrom_total s.finds (Nat.zero_le n) hrest hfinds

/-- It refuses nothing. -/
theorem exactFrom_error {n : Nat} (finds : List Nat) : ∀ {rest buf : List α} {e : PullError}
    {s : Inlet α}, exactFrom n finds rest buf = (.error e, s) → e ≠ .refused := by
  induction finds with
  | nil =>
      intro rest buf e s h
      unfold exactFrom at h
      split at h
      · cases h
        decide
      · cases h
  | cons found finds ih =>
      intro rest buf e s h
      unfold exactFrom at h
      split at h
      · dsimp only at h
        split at h
        · cases h
          decide
        · exact ih h
      · cases h

theorem Inlet.exact_error {n : Nat} {s s' : Inlet α} {e : PullError}
    (h : s.exact n = (.error e, s')) : e ≠ .refused := exactFrom_error s.finds h

-- ============================================================== the reader

/-- A read that may raise, so many times. -/
def times {σ ε β : Type*} (read : σ → Except ε β × σ) : Nat → σ → Except ε (List β) × σ
  | 0, s => (.ok [], s)
  | k + 1, s =>
      match read s with
      | (.error e, s') => (.error e, s')
      | (.ok b, s') =>
          match times read k s' with
          | (.error e, s'') => (.error e, s'')
          | (.ok bs, s'') => (.ok (b :: bs), s'')

namespace Format

variable (F : Format α)

/-- One frame. -/
def pull (s : Inlet α) : Except PullError (List α) × Inlet α :=
  match s.exact F.header with
  | (.error e, s') => (.error e, s')
  | (.ok header, s') =>
      match F.size header with
      | none => (.error .refused, s')
      | some n => s'.exact n

/-- So many frames. -/
def pulls (k : Nat) (s : Inlet α) : Except PullError (List (List α)) × Inlet α :=
  times F.pull k s

variable {F}

/-- The first frame of a stream that has it. -/
theorem frames_cons {header frame : List α} (hheader : header.length = F.header)
    (hsize : F.size header = some frame.length) (rest : List α) :
    F.frames (header ++ (frame ++ rest))
      = (frame :: (F.frames rest).1, (F.frames rest).2) := by
  have htake : (header ++ (frame ++ rest)).take F.header = header := List.take_left' hheader
  have hdrop : (header ++ (frame ++ rest)).drop F.header = frame ++ rest :=
    List.drop_left' hheader
  conv_lhs => unfold frames
  rw [dif_neg (by simp [hheader])]
  rw [htake]
  split
  next hnone =>
    rw [hsize] at hnone
    cases hnone
  next n hn =>
    rw [hsize] at hn
    cases hn
    rw [if_neg (by simp [hheader])]
    dsimp only
    rw [hdrop, ← List.drop_drop, hdrop, List.take_left, List.drop_left]

theorem frames_unfinished {s : List α} (h : F.Unfinished s) : F.frames s = ([], some s) := by
  have hread : F.read (some []) s = (some ([] ++ s), []) := read_unfinished h
  rw [read_eq_frames] at hread
  exact Prod.ext (congrArg Prod.snd hread) (congrArg Prod.fst hread)

theorem frames_refused {s : List α} (hlen : F.header ≤ s.length)
    (hsize : F.size (s.take F.header) = none) : F.frames s = ([], none) := by
  have hread := read_refused hlen hsize
  rw [read_eq_frames] at hread
  exact Prod.ext (congrArg Prod.snd hread) (congrArg Prod.fst hread)

/-- A stream that has none, or a refused one, or a first one. -/
theorem frames_cases (s : List α) :
    F.Unfinished s ∨ (F.header ≤ s.length ∧ F.size (s.take F.header) = none) ∨
    ∃ header frame rest, s = header ++ (frame ++ rest) ∧ header.length = F.header ∧
      F.size header = some frame.length := by
  by_cases hshort : s.length < F.header
  · exact .inl (.inl hshort)
  have hheader : (s.take F.header).length = F.header := by
    rw [List.length_take]
    omega
  cases hsize : F.size (s.take F.header) with
  | none => exact .inr (.inl ⟨by omega, rfl⟩)
  | some n =>
      by_cases hlen : s.length < F.header + n
      · exact .inl (.inr ⟨n, hsize, hlen⟩)
      · refine .inr (.inr ⟨s.take F.header, (s.drop F.header).take n,
          (s.drop F.header).drop n, ?_, hheader, ?_⟩)
        · rw [List.take_append_drop, List.take_append_drop]
        · rw [hsize, List.length_take, List.length_drop, Nat.min_eq_left (by omega)]

/-- One frame that was pulled is the first. -/
theorem pull_ok {s s' : Inlet α} {frame : List α} (h : F.pull s = (.ok frame, s')) :
    F.frames s.rest = (frame :: (F.frames s'.rest).1, (F.frames s'.rest).2) := by
  unfold pull at h
  split at h
  next => cases h
  next header mid hheader =>
    split at h
    next => cases h
    next n hsize =>
      obtain ⟨hlen, hrest⟩ := Inlet.exact_ok hheader
      obtain ⟨hlen', hrest'⟩ := Inlet.exact_ok h
      rw [hrest, hrest']
      exact frames_cons hlen (by rw [hsize, hlen']) s'.rest

/-- One that is there is pulled. -/
theorem pull_total {s : Inlet α} {header frame rest : List α}
    (hrest : s.rest = header ++ (frame ++ rest)) (hheader : header.length = F.header)
    (hsize : F.size header = some frame.length) (hfinds : s.rest.length ≤ s.finds.length) :
    ∃ s', F.pull s = (.ok frame, s') ∧ s'.rest = rest ∧ s'.rest.length ≤ s'.finds.length := by
  have htotal : s.rest.length = F.header + (frame.length + rest.length) := by
    rw [hrest, List.length_append, List.length_append, hheader]
  obtain ⟨header', mid, hread, hleft⟩ := Inlet.exact_total (n := F.header) (s := s)
    (by omega) (by omega)
  obtain ⟨hlen, hkept⟩ := Inlet.exact_ok hread
  obtain ⟨rfl, hmid⟩ := List.append_inj (hrest.symm.trans hkept) (hheader.trans hlen.symm)
  have hmidlen : mid.rest.length = frame.length + rest.length := by
    rw [← hmid, List.length_append]
  obtain ⟨frame', s', hread', hleft'⟩ := Inlet.exact_total (n := frame.length) (s := mid)
    (by omega) (by omega)
  obtain ⟨hlen', hkept'⟩ := Inlet.exact_ok hread'
  obtain ⟨rfl, hend⟩ := List.append_inj (hmid.trans hkept') hlen'.symm
  refine ⟨s', ?_, hend.symm, ?_⟩
  · unfold pull
    rw [hread]
    dsimp only
    rw [hsize]
    exact hread'
  · rw [← hend]
    omega

/-- What is refused is a header of the stream. -/
theorem pull_refused {s s' : Inlet α} (h : F.pull s = (.error .refused, s')) :
    (F.frames s.rest).2 = none := by
  unfold pull at h
  split at h
  next e mid hheader =>
    cases h
    exact absurd rfl (Inlet.exact_error hheader)
  next header mid hheader =>
    split at h
    next hsize =>
      obtain ⟨hlen, hrest⟩ := Inlet.exact_ok hheader
      have htake : s.rest.take F.header = header := by rw [hrest, List.take_left' hlen]
      have hlong : F.header ≤ s.rest.length := by
        rw [hrest, List.length_append]
        omega
      rw [frames_refused hlong (by rw [htake, hsize])]
    next => exact absurd rfl (Inlet.exact_error h)

/-- The frames that were pulled are the first of the stream. -/
theorem pulls_ok : ∀ {k : Nat} {s s' : Inlet α} {fs : List (List α)},
    F.pulls k s = (.ok fs, s') →
    fs.length = k ∧ F.frames s.rest = (fs ++ (F.frames s'.rest).1, (F.frames s'.rest).2) := by
  intro k
  induction k with
  | zero =>
      intro s s' fs h
      cases h
      exact ⟨rfl, rfl⟩
  | succ k ih =>
      intro s s' fs h
      unfold pulls times at h
      split at h
      next => cases h
      next frame mid hpull =>
        split at h
        next => cases h
        next frames last hpulls =>
          cases h
          obtain ⟨hlen, hframes⟩ := ih hpulls
          refine ⟨congrArg (· + 1) hlen, ?_⟩
          rw [pull_ok hpull, hframes]
          rfl

/-- Those that are there are pulled. -/
theorem pulls_total : ∀ {k : Nat} {s : Inlet α}, k ≤ (F.frames s.rest).1.length →
    s.rest.length ≤ s.finds.length →
    ∃ s', F.pulls k s = (.ok ((F.frames s.rest).1.take k), s') := by
  intro k
  induction k with
  | zero => exact fun _ _ => ⟨_, rfl⟩
  | succ k ih =>
      intro s hk hfinds
      rcases frames_cases (F := F) s.rest with hunfinished | ⟨hlong, hnone⟩ |
        ⟨header, frame, rest, hsplit, hheader, hsize⟩
      · rw [frames_unfinished hunfinished] at hk
        simp at hk
      · rw [frames_refused hlong hnone] at hk
        simp at hk
      · obtain ⟨mid, hpull, hrest, hleft⟩ := pull_total hsplit hheader hsize hfinds
        have hframes := frames_cons hheader hsize rest
        rw [← hsplit, ← hrest] at hframes
        rw [hframes, List.length_cons] at hk
        obtain ⟨s', hpulls⟩ := ih (Nat.le_of_succ_le_succ hk) hleft
        refine ⟨s', ?_⟩
        have hpulls : times F.pull k mid = _ := hpulls
        unfold pulls times
        rw [hpull]
        dsimp only
        rw [hpulls, hframes]
        rfl

theorem pulls_refused : ∀ {k : Nat} {s s' : Inlet α},
    F.pulls k s = (.error .refused, s') → (F.frames s.rest).2 = none := by
  intro k
  induction k with
  | zero =>
      intro s s' h
      cases h
  | succ k ih =>
      intro s s' h
      unfold pulls times at h
      split at h
      next mid hpull =>
        cases h
        exact pull_refused hpull
      next frame mid hpull =>
        split at h
        next last hpulls =>
          cases h
          rw [pull_ok hpull]
          exact ih hpulls
        next => cases h

end Format

end Lib
