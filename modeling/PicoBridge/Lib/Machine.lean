/-
Input/output machines and labelled transition systems, at arbitrary
types: the run semantics every reactive model of the development is
stated over.

# The two presentations

A `Machine` is a total step function that consumes one input and emits
a list of outputs; its runs are the input lists, its trace the
concatenated outputs. An abstract specification is a labelled relation
`σ → ℓ → σ → Prop` with `Trace` its reflexive-transitive closure along
a label list. `Machine.trace_of_sim` is the bridge: a simulation
relation turns every machine trace into a trace of the relation, so a
property of all abstract traces is a property of all machine runs.

# The induction rule

`Machine.run_inv` is the one induction over runs. Its invariant reads
the state AND the outputs emitted so far, and its step obligation may
use a guard `G` that every step of the run is assumed to meet
(`StepsMeet`); the unguarded and state-only rules are its
specialisations. `Machine.trace_past` is the same induction for what
holds of each output and the outputs before it, and `Machine.since_iff`
for what one input of the run began and the later ones kept.
`Machine.projects_along` takes a run of a whole to the runs of its parts
that it stands for, step by step (`Machine.along`), and `Machine.Runs`
composes runs whose inputs are of one kind.
-/
import Mathlib.Data.List.Nodup
import Mathlib.Tactic

namespace Lib

variable {σ ι ο τ ℓ : Type*}

-- ============================================================ machines

/-- A deterministic machine with outputs: one input in, a list of
outputs out. -/
structure Machine (σ ι ο : Type*) where
  step : σ → ι → σ × List ο

namespace Machine

variable (M : Machine σ ι ο)

/-- The state after an input list. -/
def final : σ → List ι → σ
  | s, [] => s
  | s, i :: is => final (M.step s i).1 is

/-- The outputs of an input list, concatenated. -/
def trace : σ → List ι → List ο
  | _, [] => []
  | s, i :: is => (M.step s i).2 ++ trace (M.step s i).1 is

@[simp] theorem final_nil (s : σ) : M.final s [] = s := rfl

@[simp] theorem final_cons (s : σ) (i : ι) (is : List ι) :
    M.final s (i :: is) = M.final (M.step s i).1 is := rfl

@[simp] theorem trace_nil (s : σ) : M.trace s [] = [] := rfl

@[simp] theorem trace_cons (s : σ) (i : ι) (is : List ι) :
    M.trace s (i :: is) = (M.step s i).2 ++ M.trace (M.step s i).1 is := rfl

theorem final_append (s : σ) (is js : List ι) :
    M.final s (is ++ js) = M.final (M.final s is) js := by
  induction is generalizing s with
  | nil => rfl
  | cons i is ih => exact ih _

theorem trace_append (s : σ) (is js : List ι) :
    M.trace s (is ++ js) = M.trace s is ++ M.trace (M.final s is) js := by
  induction is generalizing s with
  | nil => rfl
  | cons i is ih => rw [List.cons_append, trace_cons, trace_cons, ih, List.append_assoc]; rfl

/-- Every step of a run meets the guard `G`, read at the state before
the step and the input the step consumes. -/
def StepsMeet (G : σ → ι → Prop) : σ → List ι → Prop
  | _, [] => True
  | s, i :: is => G s i ∧ StepsMeet G (M.step s i).1 is

instance StepsMeet.decidable (G : σ → ι → Prop) [∀ s i, Decidable (G s i)] :
    ∀ (s : σ) (is : List ι), Decidable (M.StepsMeet G s is)
  | _, [] => inferInstanceAs (Decidable True)
  | s, i :: is =>
      have := decidable G (M.step s i).1 is
      inferInstanceAs (Decidable (G s i ∧ M.StepsMeet G (M.step s i).1 is))

/-- The run rule: an invariant of the state and the outputs so far that
every guarded step preserves holds at the end of every guarded run. -/
theorem run_inv {G : σ → ι → Prop} {P : σ → List ο → Prop}
    (hstep : ∀ s h i, P s h → G s i → P (M.step s i).1 (h ++ (M.step s i).2)) :
    ∀ (is : List ι) (s : σ) (h : List ο), P s h → M.StepsMeet G s is →
      P (M.final s is) (h ++ M.trace s is) := by
  intro is
  induction is with
  | nil =>
      intro s h hP _
      simpa using hP
  | cons i is ih =>
      intro s h hP hG
      have := ih _ _ (hstep s h i hP hG.1) hG.2
      simpa [List.append_assoc] using this

theorem stepsMeet_append (G : σ → ι → Prop) (s : σ) (is js : List ι) :
    M.StepsMeet G s (is ++ js) ↔ M.StepsMeet G s is ∧ M.StepsMeet G (M.final s is) js := by
  induction is generalizing s with
  | nil => exact (and_iff_right trivial).symm
  | cons i is ih => exact (and_congr_right fun _ => ih _).trans and_assoc.symm

/-- A guard that always holds is met by every run. -/
theorem stepsMeet_true (s : σ) (is : List ι) :
    M.StepsMeet (fun _ _ => True) s is := by
  induction is generalizing s with
  | nil => trivial
  | cons i is ih => exact ⟨trivial, ih _⟩

/-- A guard that holds of each input, whatever the state. -/
theorem stepsMeet_of_mem {G : σ → ι → Prop} {is : List ι} (h : ∀ i ∈ is, ∀ s, G s i) (s : σ) :
    M.StepsMeet G s is := by
  induction is generalizing s with
  | nil => trivial
  | cons i is ih =>
      exact ⟨h i List.mem_cons_self s, ih (fun j hj => h j (List.mem_cons_of_mem i hj)) _⟩

/-- A guard that, with an invariant, keeps the invariant and gives another
guard: a run that meets the one meets the other. -/
theorem stepsMeet_imp {I : σ → Prop} {G H : σ → ι → Prop}
    (hstep : ∀ s i, I s → G s i → I (M.step s i).1 ∧ H s i) {is : List ι} :
    ∀ {s : σ}, I s → M.StepsMeet G s is → M.StepsMeet H s is := by
  induction is with
  | nil => exact fun _ _ => trivial
  | cons i is ih =>
      intro s hs hmeet
      obtain ⟨hnext, hnow⟩ := hstep s i hs hmeet.1
      exact ⟨hnow, ih hnext hmeet.2⟩

/-- The state-only run rule. -/
theorem final_inv {P : σ → Prop} (hstep : ∀ s i, P s → P (M.step s i).1)
    {s : σ} (hs : P s) (is : List ι) : P (M.final s is) :=
  M.run_inv (G := fun _ _ => True) (P := fun s _ => P s)
    (fun s _ i hP _ => hstep s i hP) is s [] hs (M.stepsMeet_true s is)

/-- The one way to split a single output. -/
theorem singleton_split {o o' : ο} {pre post : List ο} (h : [o] = pre ++ o' :: post) :
    pre = [] ∧ o = o' ∧ post = [] := by
  cases pre with
  | nil =>
      obtain ⟨ho, hpost⟩ := List.cons.inj h
      exact ⟨rfl, ho, hpost.symm⟩
  | cons p pre => exact absurd (List.cons.inj h).2.symm (by simp)

/-- The past rule: when every output of a guarded step has `Q` with the
outputs before it, every output of a guarded run has. -/
theorem trace_past {G : σ → ι → Prop} {P : σ → List ο → Prop} {Q : List ο → ο → Prop}
    (hstep : ∀ s h i, P s h → G s i → P (M.step s i).1 (h ++ (M.step s i).2))
    (hout : ∀ s h i, P s h → G s i → ∀ pre o post, (M.step s i).2 = pre ++ o :: post →
      Q (h ++ pre) o) :
    ∀ (is : List ι) (s : σ) (h : List ο), P s h → M.StepsMeet G s is →
      ∀ pre o post, M.trace s is = pre ++ o :: post → Q (h ++ pre) o := by
  intro is
  induction is with
  | nil =>
      intro s h _ _ pre o post htrace
      exact absurd htrace (by simp)
  | cons i is ih =>
      intro s h hP hG pre o post htrace
      have hlater : ∀ mid, pre = (M.step s i).2 ++ mid →
          M.trace (M.step s i).1 is = mid ++ o :: post → Q (h ++ pre) o := by
        intro mid hpre hrest
        have hQ := ih _ _ (hstep s h i hP hG.1) hG.2 mid o post hrest
        rwa [List.append_assoc, ← hpre] at hQ
      rw [trace_cons] at htrace
      rcases List.append_eq_append_iff.mp htrace with ⟨mid, hpre, hrest⟩ | ⟨mid, hnow, hrest⟩
      · exact hlater mid hpre hrest
      · cases mid with
        | nil =>
            rw [List.append_nil] at hnow
            refine hlater [] ?_ hrest.symm
            rw [List.append_nil, hnow]
        | cons o' mid =>
            obtain ⟨rfl, -⟩ := List.cons.inj hrest
            exact hout s h i hP hG.1 pre o mid hnow

/-- Under a state invariant, a property of a step's outputs that is
exactly a guard on the step is, of a run's outputs, exactly the guard on
every step. -/
theorem forall_trace_iff {I : σ → Prop} {G : σ → ι → Prop} {P : ο → Prop}
    (hI : ∀ s i, I s → I (M.step s i).1)
    (hG : ∀ s i, I s → ((∀ o ∈ (M.step s i).2, P o) ↔ G s i)) {s : σ} (hs : I s)
    (is : List ι) : (∀ o ∈ M.trace s is, P o) ↔ M.StepsMeet G s is := by
  induction is generalizing s with
  | nil => simp [StepsMeet]
  | cons i is ih =>
      simp only [trace_cons, List.mem_append, or_imp, forall_and, StepsMeet]
      rw [hG s i hs, ih (hI s i hs)]

/-- The two rules together, under an assumption on all the outputs of a
run that passes to their beginnings. -/
theorem run_inv_iff {A : List ο → Prop} (hA : ∀ h h', A (h ++ h') → A h)
    {P : σ → List ο → Prop} {G : σ → ι → Prop} {Q : ο → Prop}
    (hstep : ∀ s h i, P s h → A (h ++ (M.step s i).2) →
      P (M.step s i).1 (h ++ (M.step s i).2) ∧ ((∀ o ∈ (M.step s i).2, Q o) ↔ G s i)) :
    ∀ (is : List ι) (s : σ) (h : List ο), P s h → A (h ++ M.trace s is) →
      P (M.final s is) (h ++ M.trace s is) ∧
        ((∀ o ∈ M.trace s is, Q o) ↔ M.StepsMeet G s is) := by
  intro is
  induction is with
  | nil =>
      intro s h hP _
      rw [trace_nil, List.append_nil]
      exact ⟨hP, by simp [StepsMeet]⟩
  | cons i is ih =>
      intro s h hP hAll
      rw [trace_cons, ← List.append_assoc] at hAll
      obtain ⟨hP', hout⟩ := hstep s h i hP (hA _ _ hAll)
      obtain ⟨hend, hrest⟩ := ih _ _ hP' hAll
      rw [trace_cons, ← List.append_assoc]
      refine ⟨hend, ?_⟩
      simp only [List.mem_append, or_imp, forall_and, StepsMeet]
      rw [hout, hrest]

/-- The since rule: of what some inputs begin and others end, it holds at
the end of a run exactly where some input of the run began it and every
input since has kept it. -/
theorem since_iff {I P : σ → Prop} {Begins Keeps : σ → ι → Prop}
    (hI : ∀ s i, I s → I (M.step s i).1)
    (hbegins : ∀ s i, I s → ¬P s → (P (M.step s i).1 ↔ Begins s i))
    (hkeeps : ∀ s i, I s → P s → (P (M.step s i).1 ↔ Keeps s i)) {s : σ} (hs : I s)
    (hnot : ¬P s) (is : List ι) :
    P (M.final s is) ↔ ∃ pre i post, is = pre ++ i :: post ∧ ¬P (M.final s pre) ∧
      Begins (M.final s pre) i ∧ M.StepsMeet Keeps (M.step (M.final s pre) i).1 post := by
  induction is using List.reverseRecOn with
  | nil =>
      refine iff_of_false hnot ?_
      rintro ⟨pre, i, post, hsplit, -⟩
      simp at hsplit
  | append_singleton is j ih =>
      have hnow : I (M.final s is) := M.final_inv hI hs is
      have hlast : M.final s (is ++ [j]) = (M.step (M.final s is) j).1 := M.final_append s is [j]
      have hsince : ∀ pre i post, is = pre ++ i :: post →
          M.final (M.step (M.final s pre) i).1 post = M.final s is := by
        rintro pre i post rfl
        exact (M.final_append s pre (i :: post)).symm
      rw [hlast]
      by_cases hP : P (M.final s is)
      · rw [hkeeps _ j hnow hP]
        constructor
        · intro hkept
          obtain ⟨pre, i, post, hsplit, hbefore, hbegun, hmeet⟩ := ih.mp hP
          refine ⟨pre, i, post ++ [j], by simp [hsplit], hbefore, hbegun, ?_⟩
          rw [stepsMeet_append, hsince pre i post hsplit]
          exact ⟨hmeet, hkept, trivial⟩
        · rintro ⟨pre, i, post, hsplit, hbefore, -, hmeet⟩
          rcases List.eq_nil_or_concat' post with rfl | ⟨post, k, rfl⟩
          · obtain ⟨rfl, -⟩ := List.append_inj' hsplit rfl
            exact absurd hP hbefore
          · have hsplit' : is ++ [j] = (pre ++ i :: post) ++ [k] := by simp [hsplit]
            obtain ⟨his, hj⟩ := List.append_inj' hsplit' rfl
            rw [stepsMeet_append, hsince pre i post his] at hmeet
            cases hj
            exact hmeet.2.1
      · rw [hbegins _ j hnow hP]
        constructor
        · exact fun hbegun => ⟨is, j, [], rfl, hP, hbegun, trivial⟩
        · rintro ⟨pre, i, post, hsplit, hbefore, hbegun, hmeet⟩
          rcases List.eq_nil_or_concat' post with rfl | ⟨post, k, rfl⟩
          · obtain ⟨rfl, hj⟩ := List.append_inj' hsplit rfl
            cases hj
            exact hbegun
          · have hsplit' : is ++ [j] = (pre ++ i :: post) ++ [k] := by simp [hsplit]
            obtain ⟨his, -⟩ := List.append_inj' hsplit' rfl
            rw [stepsMeet_append] at hmeet
            exact absurd (ih.mpr ⟨pre, i, post, his, hbefore, hbegun, hmeet.1⟩) hP

/-- What the steps of a run stand for, each read off at the state before
it, in order. -/
def along {κ : Type*} (f : σ → ι → List κ) : σ → List ι → List κ
  | _, [] => []
  | s, i :: is => f s i ++ along f (M.step s i).1 is

/-- Projection: a machine whose every step is a run of another on a part of
its state, with a part of its outputs, is so over whole runs. -/
theorem projects_along {σ' ι' ο' : Type*} (N : Machine σ' ι' ο') {f : σ → σ'}
    {g : ο → Option ο'} {inputs : σ → ι → List ι'}
    (hstep : ∀ s i, N.final (f s) (inputs s i) = f (M.step s i).1 ∧
      N.trace (f s) (inputs s i) = (M.step s i).2.filterMap g) :
    ∀ (is : List ι) (s : σ), N.final (f s) (M.along inputs s is) = f (M.final s is) ∧
      N.trace (f s) (M.along inputs s is) = (M.trace s is).filterMap g := by
  intro is
  induction is with
  | nil => exact fun s => ⟨rfl, rfl⟩
  | cons i is ih =>
      intro s
      obtain ⟨hfinal, htrace⟩ := hstep s i
      obtain ⟨hfinal', htrace'⟩ := ih (M.step s i).1
      constructor
      · rw [along, final_append, hfinal, hfinal']
        rfl
      · rw [along, trace_append, hfinal, htrace, htrace', trace_cons, List.filterMap_append]

/-- The same where each step's run is only known to exist. -/
theorem projects {σ' ι' ο' : Type*} (N : Machine σ' ι' ο') {f : σ → σ'} {g : ο → Option ο'}
    (hstep : ∀ s i, ∃ js, N.final (f s) js = f (M.step s i).1 ∧
      N.trace (f s) js = (M.step s i).2.filterMap g) (is : List ι) (s : σ) :
    ∃ js, N.final (f s) js = f (M.final s is) ∧
      N.trace (f s) js = (M.trace s is).filterMap g := by
  choose inputs hinputs using hstep
  exact ⟨M.along inputs s is, M.projects_along N hinputs is s⟩

/-- Some run, with inputs of a kind only: what it puts out and where it
ends. -/
def Runs (kind : ι → Prop) (s : σ) (os : List ο) (s' : σ) : Prop :=
  ∃ is, (∀ i ∈ is, kind i) ∧ M.final s is = s' ∧ M.trace s is = os

variable {M} {kind : ι → Prop} {s s₁ s₂ : σ} {os os' : List ο}

theorem Runs.one {i : ι} (hi : kind i) (h : M.step s i = (s₁, os)) : M.Runs kind s os s₁ := by
  refine ⟨[i], fun j hj => ?_, ?_, ?_⟩
  · rwa [List.mem_singleton.mp hj]
  · rw [final_cons, h, final_nil]
  · rw [trace_cons, h, trace_nil, List.append_nil]

theorem Runs.append (h : M.Runs kind s os s₁) (h' : M.Runs kind s₁ os' s₂) :
    M.Runs kind s (os ++ os') s₂ := by
  obtain ⟨is, hkind, hfinal, htrace⟩ := h
  obtain ⟨js, hkind', hfinal', htrace'⟩ := h'
  refine ⟨is ++ js, fun i hi => ?_, ?_, ?_⟩
  · exact (List.mem_append.mp hi).elim (hkind i) (hkind' i)
  · rw [final_append, hfinal, hfinal']
  · rw [trace_append, hfinal, htrace, htrace']

end Machine

-- ==================================================== labelled relations

/-- The closure of a labelled step relation along a list of labels. -/
inductive Trace (step : τ → ℓ → τ → Prop) : τ → List ℓ → τ → Prop
  | nil (a : τ) : Trace step a [] a
  | cons {a b c : τ} {l : ℓ} {ls : List ℓ} :
      step a l b → Trace step b ls c → Trace step a (l :: ls) c

namespace Trace

variable {step : τ → ℓ → τ → Prop}

theorem append {a b c : τ} {ls ms : List ℓ} (h : Trace step a ls b)
    (h' : Trace step b ms c) : Trace step a (ls ++ ms) c := by
  induction h with
  | nil => exact h'
  | cons hs _ ih => exact .cons hs (ih h')

/-- A trace splits at every cut of its label list. -/
theorem split {ls ms : List ℓ} : ∀ {a c : τ}, Trace step a (ls ++ ms) c →
    ∃ b, Trace step a ls b ∧ Trace step b ms c := by
  induction ls with
  | nil => exact fun h => ⟨_, .nil _, h⟩
  | cons l ls ih =>
      intro a c h
      cases h with
      | cons hs hrest =>
          obtain ⟨b, h₁, h₂⟩ := ih hrest
          exact ⟨b, .cons hs h₁, h₂⟩

/-- A trace that ends in a step. -/
theorem concat_cases {ls : List ℓ} {l : ℓ} {a c : τ} (h : Trace step a (ls ++ [l]) c) :
    ∃ b, Trace step a ls b ∧ step b l c := by
  obtain ⟨b, hls, hlast⟩ := h.split
  cases hlast with
  | cons hs hnil =>
      cases hnil
      exact ⟨b, hls, hs⟩

end Trace

/-- Simulation: when every guarded machine step is matched by an abstract
trace of its outputs, every guarded run is. -/
theorem Machine.trace_of_sim_guarded (M : Machine σ ι ℓ) {step : τ → ℓ → τ → Prop}
    {R : σ → τ → Prop} {G : σ → ι → Prop}
    (hsim : ∀ s a i, R s a → G s i →
      ∃ b, Trace step a (M.step s i).2 b ∧ R (M.step s i).1 b) :
    ∀ (is : List ι) (s : σ) (a : τ), R s a → M.StepsMeet G s is →
      ∃ b, Trace step a (M.trace s is) b ∧ R (M.final s is) b := by
  intro is
  induction is with
  | nil => exact fun s a h _ => ⟨a, .nil a, h⟩
  | cons i is ih =>
      intro s a h hG
      obtain ⟨b, hb, hR⟩ := hsim s a i h hG.1
      obtain ⟨c, hc, hR'⟩ := ih _ b hR hG.2
      exact ⟨c, hb.append hc, hR'⟩

/-- The same of steps that need no guard. -/
theorem Machine.trace_of_sim (M : Machine σ ι ℓ) {step : τ → ℓ → τ → Prop}
    {R : σ → τ → Prop}
    (hsim : ∀ s a i, R s a →
      ∃ b, Trace step a (M.step s i).2 b ∧ R (M.step s i).1 b) :
    ∀ (is : List ι) (s : σ) (a : τ), R s a →
      ∃ b, Trace step a (M.trace s is) b ∧ R (M.final s is) b :=
  fun is s a h => M.trace_of_sim_guarded (G := fun _ _ => True)
    (fun s a i hR _ => hsim s a i hR) is s a h (M.stepsMeet_true s is)

end Lib
