/-
A register whose writes may fail or be cut short, and which value it can
hold after a history of them.

# The abstract register

A write that is done leaves its value. One that is not done leaves what
was there, its own value or, where the old value has gone and the new one
has not arrived, `lost` (`Step`). So after a history the register holds
the value of the last write that was done or of a later one that was not,
or nothing that was ever written (`trace_origin`).

A machine that makes such writes refines the register: its outputs are
the history, and `Lib.Machine.trace_of_sim_guarded` is the induction.
-/
import PicoBridge.Lib.Machine

namespace Lib.Register

variable {α : Type*}

/-- A write of a value, and whether it is known to be done. -/
structure Write (α : Type*) where
  value : α
  done : Bool
  deriving DecidableEq

/-- What a write makes of the value that is held. -/
inductive Step (lost : α) : α → Write α → α → Prop
  | written (x : α) (w : Write α) : Step lost x w w.value
  | kept (x : α) {w : Write α} (h : w.done = false) : Step lost x w x
  | lost (x : α) {w : Write α} (h : w.done = false) : Step lost x w lost

variable {lost x y : α} {ws : List (Write α)}

/-- A history that ends with a write that is done. -/
theorem trace_done {v : α} (h : Trace (Step lost) x (ws ++ [⟨v, true⟩]) y) : y = v := by
  obtain ⟨b, -, hlast⟩ := h.concat_cases
  cases hlast with
  | written => rfl
  | kept hundone => cases hundone
  | lost hundone => cases hundone

/-- Where the value that is held comes from: it was there before, with no
write done since; it is what an unfinished write lost; or some write is
its, with none done since. -/
theorem trace_origin (h : Trace (Step lost) x ws y) :
    (y = x ∧ ∀ w ∈ ws, w.done = false) ∨ y = lost ∨
      ∃ earlier w later, ws = earlier ++ w :: later ∧ w.value = y ∧
        ∀ w' ∈ later, w'.done = false := by
  induction h with
  | nil x => exact .inl ⟨rfl, fun w hw => absurd hw List.not_mem_nil⟩
  | @cons a b c w ws hstep _ ih =>
      rcases ih with ⟨rfl, hundone⟩ | hlost | ⟨earlier, w', later, rfl, hvalue, hundone⟩
      · cases hstep with
        | written => exact .inr (.inr ⟨[], w, ws, rfl, rfl, hundone⟩)
        | kept hnow =>
            refine .inl ⟨rfl, fun w' hw' => ?_⟩
            rcases List.mem_cons.mp hw' with rfl | hw'
            · exact hnow
            · exact hundone w' hw'
        | lost => exact .inr (.inl rfl)
      · exact .inr (.inl hlost)
      · exact .inr (.inr ⟨w :: earlier, w', later, rfl, hvalue, hundone⟩)

end Lib.Register
