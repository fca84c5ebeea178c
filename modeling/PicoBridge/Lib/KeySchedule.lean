/-
Histories of key agreement, key derivation and cipher use, over any types
of parties, keys and inputs: what the calls of a protocol's parties leave
in the order in which they made them.

# The two assumptions

`Symbolic` says that derivation behaved like a term constructor over a
history: two calls with one output had one input, the two halves of an
output are never mistaken for each other, and nothing derives the root.
`Fresh` says what drawing an ephemeral key is for: no secret computed
with it was an input before it was drawn. Both are statements about one
history, and both pass to its beginnings.

# New derivations

A derivation with an input nobody has used is `New`, and `new_unsalted`
is what that is good for: the chaining key it gives has salted nothing,
so whatever is derived from that chaining key is new again. Its other
half has sealed nothing (`new_unsealed`), so the nonces under it start
from the beginning.
-/
import Mathlib.Tactic

namespace Lib.KeySchedule

-- ================================================================ histories

/-- One call of the derivation function: a chaining key and an input give
two keys. -/
structure Derivation (κ β : Type) where
  salt : κ
  input : β
  first : κ
  second : κ
  deriving DecidableEq

inductive Operation
  | sealing
  | opening
  deriving DecidableEq

/-- A call: an ephemeral private key drawn, a secret computed with a
private key, a derivation, or the cipher used under a key and a nonce,
returning or not. -/
inductive Event (π κ β : Type)
  | drawn (key : κ)
  | shared (key : κ) (secret : β)
  | derived (party : π) (d : Derivation κ β)
  | used (party : π) (op : Operation) (key : κ) (nonce : Nat) (returned : Bool)
  deriving DecidableEq

variable {π κ β : Type}

/-- Two derivations of one call. -/
def Derivation.SameCall (d d' : Derivation κ β) : Prop :=
  d.salt = d'.salt ∧ d.input = d'.input

/-- The derivations of a history and who made them. -/
def derivations (h : List (Event π κ β)) : List (π × Derivation κ β) :=
  h.filterMap fun
    | .derived p d => some (p, d)
    | _ => none

/-- The secrets computed with a private key. -/
def secrets [DecidableEq κ] (key : κ) (h : List (Event π κ β)) : List β :=
  h.filterMap fun
    | .shared k s => if k = key then some s else none
    | _ => none

/-- The nonces a key has sealed with, in order. -/
def sealed [DecidableEq κ] (h : List (Event π κ β)) (key : κ) : List Nat :=
  h.filterMap fun
    | .used _ .sealing k n true => if k = key then some n else none
    | _ => none

theorem mem_derivations {h : List (Event π κ β)} {p : π} {d : Derivation κ β} :
    (p, d) ∈ derivations h ↔ .derived p d ∈ h := by
  constructor
  · intro hmem
    obtain ⟨e, he, heq⟩ := List.mem_filterMap.mp hmem
    split at heq
    · cases heq
      exact he
    · cases heq
  · exact fun hmem => List.mem_filterMap.mpr ⟨_, hmem, rfl⟩

theorem derivations_append (h h' : List (Event π κ β)) :
    derivations (h ++ h') = derivations h ++ derivations h' := List.filterMap_append

section Sealed

variable [DecidableEq κ]

theorem mem_secrets {h : List (Event π κ β)} {key : κ} {s : β} :
    s ∈ secrets key h ↔ .shared key s ∈ h := by
  constructor
  · intro hmem
    obtain ⟨e, he, heq⟩ := List.mem_filterMap.mp hmem
    split at heq
    · split at heq
      next hk =>
        cases heq
        rwa [← hk]
      next => cases heq
    · cases heq
  · exact fun hmem => List.mem_filterMap.mpr ⟨_, hmem, if_pos rfl⟩

theorem mem_sealed {h : List (Event π κ β)} {key : κ} {n : Nat} :
    n ∈ sealed h key ↔ ∃ p, .used p .sealing key n true ∈ h := by
  constructor
  · intro hmem
    obtain ⟨e, he, heq⟩ := List.mem_filterMap.mp hmem
    split at heq
    · split at heq
      next hk =>
        cases heq
        exact ⟨_, hk ▸ he⟩
      next => cases heq
    · cases heq
  · rintro ⟨p, hmem⟩
    exact List.mem_filterMap.mpr ⟨_, hmem, if_pos rfl⟩

theorem sealed_append (h h' : List (Event π κ β)) (key : κ) :
    sealed (h ++ h') key = sealed h key ++ sealed h' key := List.filterMap_append

/-- One more use of a key. -/
theorem sealed_used (h : List (Event π κ β)) (p : π) (key : κ) (n : Nat) :
    sealed (h ++ [.used p .sealing key n true]) key = sealed h key ++ [n] := by
  have hone : sealed ([.used p .sealing key n true] : List (Event π κ β)) key = [n] := by
    simp [sealed]
  rw [sealed_append, hone]

/-- What seals nothing under a key leaves its nonces. -/
theorem sealed_append_of_not {h h' : List (Event π κ β)} {key : κ}
    (hnot : ∀ p n, .used p .sealing key n true ∉ h') : sealed (h ++ h') key = sealed h key := by
  have hnone : sealed h' key = [] := by
    refine List.eq_nil_iff_forall_not_mem.mpr fun n hn => ?_
    obtain ⟨p, hmem⟩ := mem_sealed.mp hn
    exact hnot p n hmem
  rw [sealed_append, hnone, List.append_nil]

end Sealed

-- ============================================================ the assumptions

/-- Derivation as a term constructor, on the calls of a history. -/
structure Symbolic (root : κ) (h : List (Event π κ β)) : Prop where
  first_inj : ∀ x ∈ derivations h, ∀ y ∈ derivations h,
    x.2.first = y.2.first → x.2.SameCall y.2
  second_inj : ∀ x ∈ derivations h, ∀ y ∈ derivations h,
    x.2.second = y.2.second → x.2.SameCall y.2
  separated : ∀ x ∈ derivations h, ∀ y ∈ derivations h, x.2.first ≠ y.2.second
  root_free : ∀ x ∈ derivations h, x.2.first ≠ root

/-- No secret computed with a drawn key was an input before the draw. -/
def Fresh (h : List (Event π κ β)) : Prop :=
  ∀ pre key post, h = pre ++ .drawn key :: post →
    ∀ s, .shared key s ∈ post → ∀ p d, .derived p d ∈ pre → d.input ≠ s

instance [DecidableEq κ] [DecidableEq β] (d d' : Derivation κ β) : Decidable (d.SameCall d') :=
  inferInstanceAs (Decidable (_ ∧ _))

instance [DecidableEq κ] [DecidableEq β] (root : κ) (h : List (Event π κ β)) :
    Decidable (Symbolic root h) :=
  decidable_of_iff
    ((∀ x ∈ derivations h, ∀ y ∈ derivations h, x.2.first = y.2.first → x.2.SameCall y.2) ∧
      (∀ x ∈ derivations h, ∀ y ∈ derivations h, x.2.second = y.2.second → x.2.SameCall y.2) ∧
      (∀ x ∈ derivations h, ∀ y ∈ derivations h, x.2.first ≠ y.2.second) ∧
      ∀ x ∈ derivations h, x.2.first ≠ root)
    ⟨fun ⟨h₁, h₂, h₃, h₄⟩ => ⟨h₁, h₂, h₃, h₄⟩,
      fun hs => ⟨hs.first_inj, hs.second_inj, hs.separated, hs.root_free⟩⟩

/-- `Fresh` of a history whose inputs before it are `seen`, one call after
the other. -/
def freshAfter [DecidableEq κ] [DecidableEq β] : List β → List (Event π κ β) → Bool
  | _, [] => true
  | seen, .drawn key :: h => (secrets key h).all (· ∉ seen) && freshAfter seen h
  | seen, .derived _ d :: h => freshAfter (d.input :: seen) h
  | seen, .shared _ _ :: h => freshAfter seen h
  | seen, .used _ _ _ _ _ :: h => freshAfter seen h

section Checked

variable [DecidableEq κ] [DecidableEq β]

theorem freshAfter_sound : ∀ (h : List (Event π κ β)) (seen : List β),
    freshAfter seen h = true → ∀ pre key post, h = pre ++ .drawn key :: post →
      ∀ s, .shared key s ∈ post → s ∉ seen ∧ ∀ p d, .derived p d ∈ pre → d.input ≠ s := by
  intro h
  induction h with
  | nil =>
      intro seen _ pre key post hsplit
      exact absurd hsplit (by simp)
  | cons e h ih =>
      intro seen hcheck pre key post hsplit s hs
      have hlater : ∀ seen', freshAfter seen' h = true → (∀ x, x ∈ seen → x ∈ seen') →
          (∀ p d, e = .derived p d → d.input ∈ seen') → ∀ pre', pre = e :: pre' →
          s ∉ seen ∧ ∀ p d, .derived p d ∈ pre → d.input ≠ s := by
        rintro seen' hrest hseen he pre' rfl
        obtain ⟨-, htail⟩ := List.cons.inj hsplit
        obtain ⟨hnot, hnone⟩ := ih seen' hrest pre' key post htail s hs
        refine ⟨fun hmem => hnot (hseen s hmem), fun p d hmem heq => ?_⟩
        rcases List.mem_cons.mp hmem with rfl | hmem
        · exact hnot (heq ▸ he p d rfl)
        · exact hnone p d hmem heq
      cases pre with
      | nil =>
          obtain ⟨rfl, rfl⟩ := List.cons.inj hsplit
          simp only [freshAfter, Bool.and_eq_true, List.all_eq_true, decide_eq_true_eq] at hcheck
          exact ⟨hcheck.1 s (mem_secrets.mpr hs), fun p d hmem => absurd hmem (by simp)⟩
      | cons e' pre =>
          obtain ⟨rfl, -⟩ := List.cons.inj hsplit
          cases e with
          | drawn key' =>
              rw [freshAfter, Bool.and_eq_true] at hcheck
              exact hlater seen hcheck.2 (fun _ hx => hx) (by simp) pre rfl
          | shared key' s' => exact hlater seen hcheck (fun _ hx => hx) (by simp) pre rfl
          | used p op key' n ok => exact hlater seen hcheck (fun _ hx => hx) (by simp) pre rfl
          | derived p d =>
              refine hlater (d.input :: seen) hcheck (fun _ hx => List.mem_cons_of_mem _ hx) ?_
                pre rfl
              intro p' d' heq
              cases heq
              exact List.mem_cons_self

/-- Freshness, checked by running through a history. -/
theorem fresh_of_check {h : List (Event π κ β)} (hcheck : freshAfter [] h = true) : Fresh h :=
  fun pre key post hsplit s hs =>
    (freshAfter_sound h [] hcheck pre key post hsplit s hs).2

end Checked

theorem Symbolic.of_append {root : κ} {h h' : List (Event π κ β)} (hs : Symbolic root (h ++ h')) :
    Symbolic root h := by
  have hmem : ∀ x ∈ derivations h, x ∈ derivations (h ++ h') := by
    intro x hx
    rw [derivations_append]
    exact List.mem_append_left _ hx
  exact ⟨fun x hx y hy => hs.first_inj x (hmem x hx) y (hmem y hy),
    fun x hx y hy => hs.second_inj x (hmem x hx) y (hmem y hy),
    fun x hx y hy => hs.separated x (hmem x hx) y (hmem y hy),
    fun x hx => hs.root_free x (hmem x hx)⟩

theorem Fresh.of_append {h h' : List (Event π κ β)} (hf : Fresh (h ++ h')) : Fresh h := by
  intro pre key post hsplit s hs
  refine hf pre key (post ++ h') ?_ s (List.mem_append_left _ hs)
  rw [hsplit, List.append_assoc]
  rfl

/-- A use of the cipher. -/
def Event.isUse : Event π κ β → Bool
  | .used _ _ _ _ _ => true
  | _ => false

/-- Uses of the cipher derive nothing. -/
theorem Symbolic.append_uses {root : κ} {h h' : List (Event π κ β)} (hs : Symbolic root h)
    (huse : ∀ e ∈ h', e.isUse = true) : Symbolic root (h ++ h') := by
  have hnil : derivations h' = [] := by
    refine List.eq_nil_iff_forall_not_mem.mpr fun x hx => ?_
    exact absurd (huse _ (mem_derivations.mp hx)) (by simp [Event.isUse])
  have hsame : derivations (h ++ h') = derivations h := by
    rw [derivations_append, hnil, List.append_nil]
  constructor <;> rw [hsame]
  · exact hs.first_inj
  · exact hs.second_inj
  · exact hs.separated
  · exact hs.root_free

/-- They draw nothing and share nothing. -/
theorem Fresh.append_uses {h h' : List (Event π κ β)} (hf : Fresh h)
    (huse : ∀ e ∈ h', e.isUse = true) : Fresh (h ++ h') := by
  have hnot : ∀ key, .drawn key ∉ h' := fun key hmem =>
    absurd (huse _ hmem) (by simp [Event.isUse])
  intro pre key post hsplit s hs p d hd
  rcases List.append_eq_append_iff.mp hsplit with ⟨mid, rfl, hrest⟩ | ⟨mid, hpre, hrest⟩
  · exact absurd (hrest ▸ List.mem_append_right mid List.mem_cons_self) (hnot key)
  · cases mid with
    | nil =>
        rw [List.nil_append] at hrest
        exact absurd (hrest ▸ List.mem_cons_self) (hnot key)
    | cons e mid =>
        obtain ⟨rfl, rfl⟩ := List.cons.inj hrest
        refine hf pre key mid hpre s ((List.mem_append.mp hs).resolve_right fun hmem => ?_) p d hd
        exact absurd (huse _ hmem) (by simp [Event.isUse])

-- ============================================================ new derivations

section Schedule

variable {who : π → Prop} {root ck : κ} {h h' : List (Event π κ β)} {p : π}
  {d : Derivation κ β} {input : β}

/-- A chaining key of `who`: the root, or one they derived. -/
def Chained (who : π → Prop) (root : κ) (h : List (Event π κ β)) (ck : κ) : Prop :=
  ck = root ∨ ∃ p d, who p ∧ .derived p d ∈ h ∧ ck = d.first

/-- `who` derive from their chaining keys only. -/
def Rooted (who : π → Prop) (root : κ) (h : List (Event π κ β)) : Prop :=
  ∀ p d, who p → .derived p d ∈ h → Chained who root h d.salt

/-- `who` have derived nothing from `ck`. -/
def Unsalted (who : π → Prop) (h : List (Event π κ β)) (ck : κ) : Prop :=
  ∀ p d, who p → .derived p d ∈ h → d.salt ≠ ck

/-- `who` have not derived from this chaining key and input. -/
def New (who : π → Prop) (h : List (Event π κ β)) (ck : κ) (input : β) : Prop :=
  ∀ p d, who p → .derived p d ∈ h → ¬(d.salt = ck ∧ d.input = input)

theorem Chained.append (hc : Chained who root h ck) : Chained who root (h ++ h') ck := by
  rcases hc with hroot | ⟨p, d, hp, hmem, hfirst⟩
  · exact .inl hroot
  · exact .inr ⟨p, d, hp, List.mem_append_left _ hmem, hfirst⟩

theorem Unsalted.new (hu : Unsalted who h ck) : New who h ck input :=
  fun p d hp hmem hsame => hu p d hp hmem hsame.1

/-- What holds of all derivations holds of those of `who`. -/
theorem New.of_all (hn : New (fun _ => True) h ck input) : New who h ck input :=
  fun p d _ hmem => hn p d trivial hmem

/-- Calls that are not derivations of `who` change nothing of this. -/
theorem Rooted.append (hr : Rooted who root h) (hnone : ∀ p d, who p → .derived p d ∉ h') :
    Rooted who root (h ++ h') := by
  intro p d hp hmem
  rcases List.mem_append.mp hmem with hmem | hmem
  · exact (hr p d hp hmem).append
  · exact absurd hmem (hnone p d hp)

theorem Unsalted.append (hu : Unsalted who h ck) (hnone : ∀ p d, who p → .derived p d ∉ h') :
    Unsalted who (h ++ h') ck := by
  intro p d hp hmem
  rcases List.mem_append.mp hmem with hmem | hmem
  · exact hu p d hp hmem
  · exact absurd hmem (hnone p d hp)

theorem derived_mem_append_singleton {q : π} {d' : Derivation κ β} :
    Event.derived q d' ∈ h ++ [.derived p d] ↔ .derived q d' ∈ h ∨ q = p ∧ d' = d := by
  rw [List.mem_append, List.mem_singleton, Event.derived.injEq]

theorem Rooted.derived (hr : Rooted who root h) (hc : Chained who root h d.salt) :
    Rooted who root (h ++ [.derived p d]) := by
  intro q d' hq hmem
  rcases derived_mem_append_singleton.mp hmem with hmem | ⟨-, rfl⟩
  · exact (hr q d' hq hmem).append
  · exact hc.append

theorem Chained.derived (hp : who p) : Chained who root (h ++ [.derived p d]) d.first :=
  .inr ⟨p, d, hp, derived_mem_append_singleton.mpr (.inr ⟨rfl, rfl⟩), rfl⟩

/-- A drawn key's secrets are new inputs for whatever was derived before
the draw. -/
theorem Fresh.new {pre post : List (Event π κ β)} {key : κ} {s : β}
    (hf : Fresh (pre ++ .drawn key :: post)) (hs : .shared key s ∈ post) :
    New (fun _ => True) pre ck s :=
  fun p d _ hmem hsame => hf pre key post rfl s hs p d hmem hsame.2

/-- The chaining key of a new derivation has salted nothing. -/
theorem new_unsalted (hs : Symbolic root (h ++ [.derived p d])) (hr : Rooted who root h)
    (hc : Chained who root h d.salt) (hn : New who h d.salt d.input) :
    Unsalted who (h ++ [.derived p d]) d.first := by
  have hlast : (p, d) ∈ derivations (h ++ [.derived p d]) :=
    mem_derivations.mpr (derived_mem_append_singleton.mpr (.inr ⟨rfl, rfl⟩))
  -- No chaining key of `who` is the new one: it would have come from the same call.
  have hother : ∀ salt, Chained who root h salt → salt ≠ d.first := by
    rintro salt (hroot | ⟨q, d', hq, hmem, hfirst⟩) heq
    · exact hs.root_free _ hlast (heq.symm.trans hroot)
    · have hmem' : (q, d') ∈ derivations (h ++ [.derived p d]) :=
        mem_derivations.mpr (derived_mem_append_singleton.mpr (.inl hmem))
      exact hn q d' hq hmem (hs.first_inj _ hmem' _ hlast (hfirst.symm.trans heq))
  intro q d' hq hmem
  rcases derived_mem_append_singleton.mp hmem with hmem | ⟨-, rfl⟩
  · exact hother _ (hr q d' hq hmem)
  · exact hother _ hc

end Schedule

-- ============================================================ sound histories

/-- What a history keeps while its parties seal in order: chaining keys
come from the root, a key seals because of a derivation its party's `role`
allows, its nonces count from 0, and one party seals with it. -/
structure Sound [DecidableEq κ] (role : π → π → Derivation κ β → κ → Prop) (root : κ)
    (h : List (Event π κ β)) : Prop where
  rooted : Rooted (fun _ => True) root h
  keyed : ∀ p k n, .used p .sealing k n true ∈ h → ∃ q d, .derived q d ∈ h ∧ role p q d k
  inOrder : ∀ k, ∃ n, sealed h k = List.range n
  oneSided : ∀ k p p' n n', .used p .sealing k n true ∈ h → .used p' .sealing k n' true ∈ h →
    p = p'

section Sound

variable [DecidableEq κ] {role : π → π → Derivation κ β → κ → Prop} {root : κ}
  {h h' : List (Event π κ β)} {p q : π} {d : Derivation κ β} {k : κ} {n : Nat}

theorem Sound.empty : Sound role root [] where
  rooted p d _ hmem := absurd hmem (by simp)
  keyed p k n hmem := absurd hmem (by simp)
  inOrder k := ⟨0, rfl⟩
  oneSided k p p' n n' hmem := absurd hmem (by simp)

/-- Calls that seal nothing, and derive from chaining keys if at all. -/
theorem Sound.extend (hs : Sound role root h) (hr : Rooted (fun _ => True) root (h ++ h'))
    (hnone : ∀ p k n, .used p .sealing k n true ∉ h') : Sound role root (h ++ h') := by
  have hback : ∀ p k n, .used p .sealing k n true ∈ h ++ h' → .used p .sealing k n true ∈ h :=
    fun p k n hmem => (List.mem_append.mp hmem).resolve_right (hnone p k n)
  refine ⟨hr, ?_, ?_, ?_⟩
  · intro p k n hmem
    obtain ⟨q, d, hd, hrole⟩ := hs.keyed p k n (hback p k n hmem)
    exact ⟨q, d, List.mem_append_left _ hd, hrole⟩
  · intro k
    rw [sealed_append_of_not fun p n => hnone p k n]
    exact hs.inOrder k
  · intro k p p' n n' hmem hmem'
    exact hs.oneSided k p p' n n' (hback p k n hmem) (hback p' k n' hmem')

/-- Calls that neither seal nor derive. -/
theorem Sound.inert (hs : Sound role root h) (hderive : ∀ p d, .derived p d ∉ h')
    (hseal : ∀ p k n, .used p .sealing k n true ∉ h') : Sound role root (h ++ h') :=
  hs.extend (hs.rooted.append fun p d _ => hderive p d) hseal

theorem Sound.derived (hs : Sound role root h) (hc : Chained (fun _ => True) root h d.salt) :
    Sound role root (h ++ [.derived p d]) :=
  hs.extend (hs.rooted.derived hc) (by simp)

/-- The next nonce of a key that nobody else seals with. -/
theorem Sound.seal (hs : Sound role root h) (hd : .derived q d ∈ h) (hrole : role p q d k)
    (hn : sealed h k = List.range n)
    (hown : ∀ p' n', .used p' .sealing k n' true ∈ h → p' = p) :
    Sound role root (h ++ [.used p .sealing k n true]) := by
  have hsplit : ∀ p' k' n', .used p' .sealing k' n' true ∈ h ++ [.used p .sealing k n true] →
      .used p' .sealing k' n' true ∈ h ∨ p' = p ∧ k' = k := by
    intro p' k' n' hmem
    rcases List.mem_append.mp hmem with hmem | hmem
    · exact .inl hmem
    · cases List.mem_singleton.mp hmem
      exact .inr ⟨rfl, rfl⟩
  refine ⟨hs.rooted.append (by simp), ?_, ?_, ?_⟩
  · intro p' k' n' hmem
    rcases hsplit p' k' n' hmem with hmem | ⟨rfl, rfl⟩
    · obtain ⟨q', d', hd', hrole'⟩ := hs.keyed p' k' n' hmem
      exact ⟨q', d', List.mem_append_left _ hd', hrole'⟩
    · exact ⟨q, d, List.mem_append_left _ hd, hrole⟩
  · intro k'
    by_cases hk : k' = k
    · rw [hk, sealed_used, hn]
      exact ⟨n + 1, List.range_succ.symm⟩
    · rw [sealed_append_of_not (by simp [hk])]
      exact hs.inOrder k'
  · intro k' p₁ p₂ n₁ n₂ h₁ h₂
    rcases hsplit _ _ _ h₁ with m₁ | ⟨rfl, rfl⟩
    · rcases hsplit _ _ _ h₂ with m₂ | ⟨rfl, rfl⟩
      · exact hs.oneSided k' p₁ p₂ n₁ n₂ m₁ m₂
      · exact hown p₁ n₁ m₁
    · rcases hsplit _ _ _ h₂ with m₂ | ⟨rfl, -⟩
      · exact (hown p₂ n₂ m₂).symm
      · rfl

/-- The other key of a new derivation has sealed nothing, when keys that
seal are outputs of derivations. -/
theorem new_unsealed (hout : ∀ p q d k, role p q d k → k = d.first ∨ k = d.second)
    (hs : Sound role root h) (hsym : Symbolic root (h ++ [.derived p d]))
    (hn : New (fun _ => True) h d.salt d.input) :
    sealed (h ++ [.derived p d]) d.second = [] := by
  have hlast : (p, d) ∈ derivations (h ++ [.derived p d]) :=
    mem_derivations.mpr (derived_mem_append_singleton.mpr (.inr ⟨rfl, rfl⟩))
  rw [sealed_append_of_not (by simp)]
  refine List.eq_nil_iff_forall_not_mem.mpr fun n hmem => ?_
  obtain ⟨p', hused⟩ := mem_sealed.mp hmem
  obtain ⟨q, d', hd, hrole⟩ := hs.keyed p' d.second n hused
  have hd' : (q, d') ∈ derivations (h ++ [.derived p d]) :=
    mem_derivations.mpr (derived_mem_append_singleton.mpr (.inl hd))
  rcases hout p' q d' d.second hrole with hfirst | hsecond
  · exact hsym.separated _ hd' _ hlast hfirst.symm
  · exact hn q d' trivial hd (hsym.second_inj _ hd' _ hlast hsecond.symm)

end Sound

end Lib.KeySchedule
