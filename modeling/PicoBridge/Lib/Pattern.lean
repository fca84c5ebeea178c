/-
Regular expressions without alternatives: a sequence of classes of
characters, each repeated between two bounds.

A text matches where it can be cut into pieces, one for each class
(`fullmatch_iff`).
-/
import Mathlib.Data.List.Basic

namespace Lib.Pattern

variable {α : Type*}

/-- `[…]{low,high}`. -/
structure Repeat (α : Type*) where
  cls : α → Bool
  low : Nat
  high : Nat

/-- `fullmatch`: the matcher tries every length of the first piece. -/
def fullmatch : List (Repeat α) → List α → Bool
  | [], s => s.isEmpty
  | r :: rs, s => (List.range (r.high + 1)).any fun n =>
      decide (r.low ≤ n) && decide (n ≤ s.length) && (s.take n).all r.cls && fullmatch rs (s.drop n)

/-- A text can be cut into the pieces of a pattern. -/
def Matches : List (Repeat α) → List α → Prop
  | [], s => s = []
  | r :: rs, s => ∃ a b, s = a ++ b ∧ (r.low ≤ a.length ∧ a.length ≤ r.high) ∧
      (∀ c ∈ a, r.cls c = true) ∧ Matches rs b

theorem fullmatch_iff {rs : List (Repeat α)} : ∀ {s : List α},
    fullmatch rs s = true ↔ Matches rs s := by
  induction rs with
  | nil => exact List.isEmpty_iff
  | cons r rs ih =>
      intro s
      rw [fullmatch, List.any_eq_true]
      simp only [List.mem_range, Bool.and_eq_true, decide_eq_true_eq, List.all_eq_true, ih]
      constructor
      · rintro ⟨n, hhigh, ⟨⟨hlow, hlen⟩, hcls⟩, hrest⟩
        have htake : (s.take n).length = n := List.length_take_of_le hlen
        exact ⟨s.take n, s.drop n, (List.take_append_drop n s).symm, by omega, hcls, hrest⟩
      · rintro ⟨a, b, rfl, ⟨hlow, hhigh⟩, hcls, hrest⟩
        refine ⟨a.length, by omega, ⟨⟨hlow, ?_⟩, ?_⟩, ?_⟩
        · rw [List.length_append]
          exact Nat.le_add_right _ _
        · rw [List.take_left]
          exact hcls
        · rw [List.drop_left]
          exact hrest

/-- Every character is one that the pattern names. -/
theorem Matches.mem {rs : List (Repeat α)} : ∀ {s : List α}, Matches rs s →
    ∀ c ∈ s, ∃ r ∈ rs, r.cls c = true := by
  induction rs with
  | nil =>
      rintro s rfl c hc
      cases hc
  | cons r rs ih =>
      rintro s ⟨a, b, rfl, -, hcls, hrest⟩ c hc
      rcases List.mem_append.mp hc with hc | hc
      · exact ⟨r, List.mem_cons_self, hcls c hc⟩
      · obtain ⟨r', hr', hcls'⟩ := ih hrest c hc
        exact ⟨r', List.mem_cons_of_mem r hr', hcls'⟩

end Lib.Pattern
