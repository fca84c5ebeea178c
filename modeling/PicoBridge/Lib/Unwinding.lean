/-
Runs with and without inserted inputs, at arbitrary types.

# The rule

`Machine.inserting` runs a machine on inputs of its own and, between
them, on lists of inputs that others insert; it shows the outputs of the
former only. An `Unwinding` is a relation between two states of the
machine that an own input keeps, with the same outputs on both sides, and
that an insertion on one side keeps. `Unwinding.run` carries it from one
step to a run and the same run without what is inserted.
-/
import PicoBridge.Lib.Machine

namespace Lib

variable {σ ι κ ο : Type*}

namespace Machine

variable (M : Machine σ ι ο) (expand : κ → List ι)

/-- A machine between whose inputs others are inserted, `expand k` at a
time. -/
def inserting : Machine σ (ι ⊕ κ) ο where
  step s
    | .inl i => M.step s i
    | .inr k => (M.final s (expand k), [])

/-- All the inputs of such a run. -/
def everything (js : List (ι ⊕ κ)) : List ι := js.flatMap (Sum.elim ([·]) expand)

/-- Those that are not inserted. -/
def own (js : List (ι ⊕ κ)) : List ι := js.filterMap Sum.getLeft?

/-- A guard on what is inserted. -/
def Inserts (G : σ → κ → Prop) : σ → List (ι ⊕ κ) → Prop :=
  (M.inserting expand).StepsMeet fun s => Sum.elim (fun _ => True) (G s)

theorem final_inserting (js : List (ι ⊕ κ)) : ∀ s : σ,
    (M.inserting expand).final s js = M.final s (everything expand js) := by
  induction js with
  | nil => exact fun _ => rfl
  | cons j js ih =>
      intro s
      cases j with
      | inl i => exact ih _
      | inr k =>
          have hcons : everything expand (.inr k :: js) = expand k ++ everything expand js := rfl
          rw [final_cons, ih, hcons, final_append]
          rfl

end Machine

open Machine (everything own)

/-- What one step does to related states. -/
structure Unwinding (M : Machine σ ι ο) (expand : κ → List ι) (G : σ → κ → Prop)
    (R : σ → σ → Prop) : Prop where
  alike : ∀ {s t}, R s t → ∀ i, R (M.step s i).1 (M.step t i).1 ∧ (M.step s i).2 = (M.step t i).2
  inserted : ∀ {s t k}, R s t → G s k → R (M.final s (expand k)) t

/-- A run, and the run without what is inserted. -/
theorem Unwinding.run {M : Machine σ ι ο} {expand : κ → List ι} {G : σ → κ → Prop}
    {R : σ → σ → Prop} (h : Unwinding M expand G R) (js : List (ι ⊕ κ)) :
    ∀ {s t : σ}, R s t → M.Inserts expand G s js →
      R (M.final s (everything expand js)) (M.final t (own js)) ∧
        (M.inserting expand).trace s js = M.trace t (own js) := by
  induction js with
  | nil => exact fun hR _ => ⟨hR, rfl⟩
  | cons j js ih =>
      intro s t hR hG
      rw [← M.final_inserting]
      cases j with
      | inl i =>
          obtain ⟨hnext, hout⟩ := h.alike hR i
          obtain ⟨hfinal, htrace⟩ := ih hnext hG.2
          rw [← M.final_inserting] at hfinal
          exact ⟨hfinal, congrArg₂ (· ++ ·) hout htrace⟩
      | inr k =>
          obtain ⟨hfinal, htrace⟩ := ih (h.inserted hR hG.1) hG.2
          rw [← M.final_inserting] at hfinal
          exact ⟨hfinal, htrace⟩

end Lib
