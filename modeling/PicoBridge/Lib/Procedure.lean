/-
Procedures: functions over a state that can fail and then leave the state
as far as they had got, as a C function with a return code or a method
that raises does.

# The rules

A procedure is an `EStateM`. `bind_ok` runs a sequence forwards, one step
at a time; `bind_eq_ok` takes a sequence that succeeded apart again.
`Simulates R F x y` says that `x` succeeds whenever the more abstract `y`
does, with the same result, in a related state, and having touched
nothing outside the frame `F`; it composes along a sequence
(`Simulates.bind`).

`Triple P x Q E` is the Hoare triple of a procedure that can fail: from a
state in `P` it returns in `Q` or fails in `E`. A sequence shares one `E`
(`Triple.bind`), so a proof says at each step what holds there and once
what every failure leaves.

# Recorded procedures

`record` runs a procedure beside a history and adds to the history what a
note on the state before it says. A recorded procedure `Projects` to the
one it was made from: same result, same state, a longer history.
-/
import Mathlib.Tactic

namespace Lib.Procedure

variable {ε ε' σ τ α β : Type}

-- ========================================================== running a sequence

theorem bind_ok {x : EStateM ε σ α} {f : α → EStateM ε σ β} {s s' : σ} {a : α}
    (h : x s = .ok a s') : (x >>= f) s = f a s' := by
  show EStateM.bind x f s = f a s'
  rw [EStateM.bind, h]

theorem bind_error {x : EStateM ε σ α} {f : α → EStateM ε σ β} {s s' : σ} {e : ε}
    (h : x s = .error e s') : (x >>= f) s = .error e s' := by
  show EStateM.bind x f s = .error e s'
  rw [EStateM.bind, h]

/-- A sequence that succeeded was a step that succeeded and a rest that
did. -/
theorem bind_eq_ok {x : EStateM ε σ α} {f : α → EStateM ε σ β} {s s'' : σ} {b : β} :
    (x >>= f) s = .ok b s'' ↔ ∃ a s', x s = .ok a s' ∧ f a s' = .ok b s'' := by
  constructor
  · intro h
    cases hx : x s with
    | ok a s' =>
        rw [bind_ok hx] at h
        exact ⟨a, s', rfl, h⟩
    | error e s' =>
        rw [bind_error hx] at h
        cases h
  · rintro ⟨a, s', hx, hf⟩
    rw [bind_ok hx, hf]

theorem pure_eq_ok {a b : α} {s s' : σ} :
    (pure a : EStateM ε σ α) s = .ok b s' ↔ a = b ∧ s = s' := by
  constructor
  · intro h
    cases h
    exact ⟨rfl, rfl⟩
  · rintro ⟨rfl, rfl⟩
    rfl

-- ================================================================ optional values

/-- A value that may be missing. -/
def ofOption (e : ε) : Option α → EStateM ε σ α
  | some a => pure a
  | none => throw e

theorem ofOption_eq_ok {e : ε} {o : Option α} {a : α} {s s' : σ} :
    (ofOption e o : EStateM ε σ α) s = .ok a s' ↔ o = some a ∧ s = s' := by
  cases o with
  | none =>
      constructor
      · intro h
        cases h
      · rintro ⟨h, -⟩
        cases h
  | some b =>
      rw [ofOption, pure_eq_ok]
      exact ⟨fun ⟨h, hs⟩ => ⟨congrArg some h, hs⟩, fun ⟨h, hs⟩ => ⟨Option.some.inj h, hs⟩⟩

-- =============================================================== simulation

/-- `x` does what `y` does wherever `y` succeeds. -/
def Simulates (R : σ → τ → Prop) (F : σ → σ → Prop) (x : EStateM ε σ α)
    (y : EStateM ε' τ α) : Prop :=
  ∀ s t a t', R s t → y t = .ok a t' → ∃ s', x s = .ok a s' ∧ R s' t' ∧ F s s'

variable {R : σ → τ → Prop} {F : σ → σ → Prop}

theorem Simulates.pure (hF : ∀ s, F s s) (a : α) :
    Simulates R F (pure a : EStateM ε σ α) (pure a : EStateM ε' τ α) := by
  intro s t b t' hR h
  obtain ⟨rfl, rfl⟩ := pure_eq_ok.mp h
  exact ⟨s, rfl, hR, hF s⟩

theorem Simulates.bind (hF : ∀ {a b c}, F a b → F b c → F a c) {x : EStateM ε σ α}
    {y : EStateM ε' τ α} {f : α → EStateM ε σ β} {g : α → EStateM ε' τ β}
    (h : Simulates R F x y) (hf : ∀ a, Simulates R F (f a) (g a)) :
    Simulates R F (x >>= f) (y >>= g) := by
  intro s t b t'' hR hy
  obtain ⟨a, t', hya, hgb⟩ := bind_eq_ok.mp hy
  obtain ⟨s', hx, hR', hF'⟩ := h s t a t' hR hya
  obtain ⟨s'', hfb, hR'', hF''⟩ := hf a s' t' b t'' hR' hgb
  refine ⟨s'', ?_, hR'', hF hF' hF''⟩
  rw [bind_ok hx, hfb]

theorem Simulates.ofOption (hF : ∀ s, F s s) {e : ε} {e' : ε'} {o o' : Option α}
    (h : ∀ a, o' = some a → o = some a) :
    Simulates R F (ofOption e o : EStateM ε σ α) (ofOption e' o' : EStateM ε' τ α) := by
  intro s t a t' hR hy
  obtain ⟨ho, rfl⟩ := ofOption_eq_ok.mp hy
  exact ⟨s, ofOption_eq_ok.mpr ⟨h a ho, rfl⟩, hR, hF s⟩

/-- The state a procedure leaves, whatever it returns. -/
def leaves (x : EStateM ε σ α) (s : σ) : σ :=
  match x s with
  | .ok _ s' => s'
  | .error _ s' => s'

theorem leaves_ok {x : EStateM ε σ α} {s s' : σ} {a : α} (h : x s = .ok a s') :
    leaves x s = s' := by
  rw [leaves, h]

theorem leaves_error {x : EStateM ε σ α} {s s' : σ} {e : ε} (h : x s = .error e s') :
    leaves x s = s' := by
  rw [leaves, h]

theorem leaves_bind_pure (x : EStateM ε σ α) (b : β) (s : σ) :
    leaves (do let _ ← x; pure b) s = leaves x s := by
  unfold leaves
  cases hx : x s with
  | ok a s' => rw [bind_ok hx]; rfl
  | error e s' => rw [bind_error hx]

-- ================================================================= triples

/-- From `P`, `x` returns in `Q` or fails in `E`. -/
def Triple (P : σ → Prop) (x : EStateM ε σ α) (Q : α → σ → Prop) (E : ε → σ → Prop) : Prop :=
  ∀ s, P s → match x s with
    | .ok a s' => Q a s'
    | .error e s' => E e s'

namespace Triple

variable {P : σ → Prop} {Q : α → σ → Prop} {Q' : β → σ → Prop} {E : ε → σ → Prop}
  {x : EStateM ε σ α} {f : α → EStateM ε σ β}

theorem bind (hx : Triple P x Q E) (hf : ∀ a, Triple (Q a) (f a) Q' E) :
    Triple P (x >>= f) Q' E := by
  intro s hP
  have hstep := hx s hP
  cases h : x s with
  | ok a s' =>
      rw [h] at hstep
      rw [bind_ok h]
      exact hf a s' hstep
  | error e s' =>
      rw [h] at hstep
      rw [bind_error h]
      exact hstep

theorem pure {a : α} (h : ∀ s, P s → Q a s) : Triple P (pure a : EStateM ε σ α) Q E :=
  fun s hP => h s hP

theorem throw {e : ε} (h : ∀ s, P s → E e s) : Triple P (throw e : EStateM ε σ α) Q E :=
  fun s hP => h s hP

theorem get {Q : σ → σ → Prop} (h : ∀ s, P s → Q s s) :
    Triple P (get : EStateM ε σ σ) Q E :=
  fun s hP => h s hP

theorem ofOption {e : ε} {o : Option α} (hsome : ∀ a, o = some a → ∀ s, P s → Q a s)
    (hnone : o = none → ∀ s, P s → E e s) : Triple P (ofOption e o : EStateM ε σ α) Q E := by
  cases o with
  | none => exact throw (hnone rfl)
  | some a => exact pure (hsome a rfl)

theorem ite {c : Prop} [Decidable c] {y : EStateM ε σ α} (hx : c → Triple P x Q E)
    (hy : ¬c → Triple P y Q E) : Triple P (if c then x else y) Q E := by
  split
  next hc => exact hx hc
  next hc => exact hy hc

/-- What holds in `Q` and in `E` holds of the state left. -/
theorem leaves {R : σ → Prop} (h : Triple P x Q E) (hQ : ∀ a s, Q a s → R s)
    (hE : ∀ e s, E e s → R s) {s : σ} (hs : P s) : R (leaves x s) := by
  have hend := h s hs
  unfold Procedure.leaves
  cases hx : x s with
  | ok a s' =>
      rw [hx] at hend
      exact hQ a s' hend
  | error e s' =>
      rw [hx] at hend
      exact hE e s' hend

theorem weaken {P' : σ → Prop} {Q₁ : α → σ → Prop} (h : Triple P x Q E)
    (hP : ∀ s, P' s → P s) (hQ : ∀ a s, Q a s → Q₁ a s) : Triple P' x Q₁ E := by
  intro s hs
  have hstep := h s (hP s hs)
  cases hx : x s with
  | ok a s' =>
      rw [hx] at hstep
      exact hQ a s' hstep
  | error e s' =>
      rw [hx] at hstep
      exact hstep

end Triple

-- ==================================================== recorded procedures

variable {ω : Type}

/-- A result with a history beside its state. -/
def withHistory (h : List ω) : EStateM.Result ε σ α → EStateM.Result ε (σ × List ω) α
  | .ok a s => .ok a (s, h)
  | .error e s => .error e (s, h)

/-- `x` beside a history, to which it adds the note on the state before. -/
def record (note : σ → List ω) (x : EStateM ε σ α) : EStateM ε (σ × List ω) α :=
  fun (s, h) => withHistory (h ++ note s) (x s)

/-- `x` with nothing added. -/
def quietly (x : EStateM ε σ α) : EStateM ε (σ × List ω) α := record (fun _ => []) x

/-- The recorded `x'` does what `x` does, and only adds to the history. -/
def Projects (x' : EStateM ε (σ × List ω) α) (x : EStateM ε σ α) : Prop :=
  ∀ s h, ∃ new, x' (s, h) = withHistory (h ++ new) (x s)

/-- What a recorded procedure adds to the history. -/
def added (x' : EStateM ε (σ × List ω) α) (s : σ) : List ω := (leaves x' (s, [])).2

theorem added_record (note : σ → List ω) (x : EStateM ε σ α) (s : σ) :
    added (record note x) s = note s := by
  have hrun : record note x (s, []) = withHistory ([] ++ note s) (x s) := rfl
  rw [added, leaves, hrun]
  cases x s <;> rfl

theorem projects_record (note : σ → List ω) (x : EStateM ε σ α) :
    Projects (record note x) x :=
  fun s _ => ⟨note s, rfl⟩

theorem Projects.bind {x' : EStateM ε (σ × List ω) α} {x : EStateM ε σ α}
    {f' : α → EStateM ε (σ × List ω) β} {f : α → EStateM ε σ β} (hx : Projects x' x)
    (hf : ∀ a, Projects (f' a) (f a)) : Projects (x' >>= f') (x >>= f) := by
  intro s h
  obtain ⟨new, hstep⟩ := hx s h
  cases hxs : x s with
  | ok a s' =>
      rw [hxs] at hstep
      obtain ⟨new', hrest⟩ := hf a s' (h ++ new)
      refine ⟨new ++ new', ?_⟩
      rw [bind_ok hxs, bind_ok hstep, hrest, List.append_assoc]
  | error e s' =>
      rw [hxs] at hstep
      refine ⟨new, ?_⟩
      rw [bind_error hxs, bind_error hstep]
      rfl

theorem Projects.pure (a : α) :
    Projects (pure a : EStateM ε (σ × List ω) α) (pure a : EStateM ε σ α) :=
  fun s h => ⟨[], by rw [List.append_nil]; rfl⟩

theorem projects_throw (e : ε) :
    Projects (throw e : EStateM ε (σ × List ω) α) (throw e : EStateM ε σ α) :=
  fun s h => ⟨[], by rw [List.append_nil]; rfl⟩

theorem Projects.ite {c : Prop} [Decidable c] {x' y' : EStateM ε (σ × List ω) α}
    {x y : EStateM ε σ α} (hx : Projects x' x) (hy : Projects y' y) :
    Projects (if c then x' else y') (if c then x else y) := by
  split
  · exact hx
  · exact hy

/-- A recorded procedure leaves the state the procedure leaves. -/
theorem Projects.leaves {x' : EStateM ε (σ × List ω) α} {x : EStateM ε σ α} (h : Projects x' x)
    (s : σ) : Procedure.leaves x' (s, []) = (Procedure.leaves x s, added x' s) := by
  obtain ⟨new, hrun⟩ := h s []
  refine Prod.ext ?_ rfl
  unfold Procedure.leaves
  rw [hrun]
  cases x s <;> rfl

/-- A recorded step ends where the step does. -/
theorem Triple.record {P : σ × List ω → Prop} {Q : α → σ × List ω → Prop}
    {E : ε → σ × List ω → Prop} {note : σ → List ω} {x : EStateM ε σ α}
    (hok : ∀ s h a s', P (s, h) → x s = .ok a s' → Q a (s', h ++ note s))
    (herror : ∀ s h e s', P (s, h) → x s = .error e s' → E e (s', h ++ note s)) :
    Triple P (record note x) Q E := by
  rintro ⟨s, h⟩ hP
  have hrun : Procedure.record note x (s, h) = withHistory (h ++ note s) (x s) := rfl
  rw [hrun]
  cases hx : x s with
  | ok a s' => exact hok s h a s' hP hx
  | error e s' => exact herror s h e s' hP hx

end Lib.Procedure
