/-
Checksums that a register computes, one input at a time.

A register whose step is injective in what it holds and in what it takes
detects every change of a single input: the two runs part at that input,
and no later one brings them together (`run_set_ne`).
-/
import Mathlib.Data.List.Basic
import Mathlib.Logic.Function.Basic

namespace Lib

/-- A register that forgets neither its state nor its input. -/
structure Register (σ β : Type*) where
  step : σ → β → σ
  state_injective : ∀ b, Function.Injective fun s => step s b
  input_injective : ∀ s, Function.Injective (step s)

namespace Register

variable {σ β : Type*} (R : Register σ β)

/-- The state after some inputs. -/
def run (s : σ) (l : List β) : σ := l.foldl R.step s

@[simp] theorem run_nil (s : σ) : R.run s [] = s := rfl

@[simp] theorem run_cons (s : σ) (b : β) (l : List β) :
    R.run s (b :: l) = R.run (R.step s b) l := rfl

/-- Inputs in common keep two states apart. -/
theorem run_injective (l : List β) : Function.Injective fun s => R.run s l := by
  induction l with
  | nil => exact fun _ _ h => h
  | cons b l ih => exact fun s t h => R.state_injective b (ih h)

/-- A change of one input is detected. -/
theorem run_set_ne {l : List β} {b : β} : ∀ {s : σ} {i : Nat} (hi : i < l.length), l[i] ≠ b →
    R.run s (l.set i b) ≠ R.run s l := by
  induction l with
  | nil => exact fun hi => absurd hi (Nat.not_lt_zero _)
  | cons a l ih =>
      intro s i hi hne
      cases i with
      | zero =>
          intro h
          exact hne (R.input_injective s (R.run_injective l h)).symm
      | succ i => exact ih (Nat.lt_of_succ_lt_succ hi) hne

end Register

end Lib
