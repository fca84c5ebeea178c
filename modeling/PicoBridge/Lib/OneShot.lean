/-
The one-shot slot: a single place that holds at most one offered job,
hands the job's items out one at a time only after the offer was
approved, and never takes an offer under a key it has seen before.

Types are arbitrary: a job `J` has a key, a list of items, and a
relation saying which approvals of it are in time. `Step` is the whole
specification; the theorems below read its traces without mentioning
states, so any machine that simulates the slot inherits them.

# What a trace promises

Cut a trace at an offer and read up to the next offer (`segment`): the
items taken are a prefix of the offered job's items (`takes_prefix`),
the first of them comes after an in-time approval under the job's own
key (`take_approved`), and none comes after a drop
(`take_before_drop`). Across the whole trace no key is offered twice
(`offers_nodup`). Read backwards from an open slot, a trace ends in the
offer, the approval and the items of one job (`open_history`).
-/
import PicoBridge.Lib.Machine

namespace Lib.OneShot

variable {J κ α τ : Type*}

-- =========================================================== the slot

/-- What an observer of the slot sees. -/
inductive Label (J κ α τ : Type*)
  | offer (j : J)
  | approve (k : κ) (t : τ)
  | take (x : α)
  | drop
  deriving DecidableEq

/-- The slot: empty, holding an unapproved job, or handing out the
items still left of an approved one. -/
inductive Slot (J α : Type*)
  | idle
  | offered (j : J)
  | open (j : J) (left : List α)

/-- The reading of a job that the slot is parametric in. -/
structure Reading (J κ α τ : Type*) where
  key : J → κ
  items : J → List α
  inTime : J → τ → Prop

variable (rd : Reading J κ α τ)

/-- The slot's transitions, over the ledger of keys offered so far. -/
inductive Step : List κ × Slot J α → Label J κ α τ → List κ × Slot J α → Prop
  | offer {used : List κ} {j : J} : rd.key j ∉ used →
      Step (used, .idle) (.offer j) (used ++ [rd.key j], .offered j)
  | approve {used : List κ} {j : J} {t : τ} : rd.inTime j t →
      Step (used, .offered j) (.approve (rd.key j) t) (used, .open j (rd.items j))
  | take {used : List κ} {j : J} {x : α} {left : List α} :
      Step (used, .open j (x :: left)) (.take x) (used, .open j left)
  | drop {used : List κ} {s : Slot J α} :
      Step (used, s) .drop (used, .idle)

-- ============================================================= readings

namespace Label

/-- The label is not an offer. -/
def notOffer : Label J κ α τ → Bool
  | .offer _ => false
  | _ => true

/-- The item a label hands out. -/
def item? : Label J κ α τ → Option α
  | .take x => some x
  | _ => none

/-- The job a label offers. -/
def job? : Label J κ α τ → Option J
  | .offer j => some j
  | _ => none

end Label

/-- The items handed out along a label list, in order. -/
def takes (ls : List (Label J κ α τ)) : List α := ls.filterMap Label.item?

/-- The jobs offered along a label list, in order. -/
def offers (ls : List (Label J κ α τ)) : List J := ls.filterMap Label.job?

/-- The labels up to the next offer. -/
def segment (ls : List (Label J κ α τ)) : List (Label J κ α τ) :=
  ls.takeWhile Label.notOffer

@[simp] theorem segment_nil : segment ([] : List (Label J κ α τ)) = [] := rfl

@[simp] theorem segment_offer (j : J) (ls : List (Label J κ α τ)) :
    segment (.offer j :: ls) = [] := rfl

@[simp] theorem segment_approve (k : κ) (t : τ) (ls : List (Label J κ α τ)) :
    segment (.approve k t :: ls) = .approve k t :: segment ls := rfl

@[simp] theorem segment_take (x : α) (ls : List (Label J κ α τ)) :
    segment (.take x :: ls) = .take x :: segment ls := rfl

@[simp] theorem segment_drop (ls : List (Label J κ α τ)) :
    segment (.drop :: ls) = .drop :: segment ls := rfl

@[simp] theorem takes_nil : takes ([] : List (Label J κ α τ)) = [] := rfl

@[simp] theorem takes_approve (k : κ) (t : τ) (ls : List (Label J κ α τ)) :
    takes (.approve k t :: ls) = takes ls := rfl

@[simp] theorem takes_take (x : α) (ls : List (Label J κ α τ)) :
    takes (.take x :: ls) = x :: takes ls := rfl

@[simp] theorem takes_drop (ls : List (Label J κ α τ)) :
    takes (.drop :: ls) = takes ls := rfl

@[simp] theorem offers_nil : offers ([] : List (Label J κ α τ)) = [] := rfl

@[simp] theorem offers_offer (j : J) (ls : List (Label J κ α τ)) :
    offers (.offer j :: ls) = j :: offers ls := rfl

@[simp] theorem offers_approve (k : κ) (t : τ) (ls : List (Label J κ α τ)) :
    offers (.approve k t :: ls) = offers ls := rfl

@[simp] theorem offers_take (x : α) (ls : List (Label J κ α τ)) :
    offers (.take x :: ls) = offers ls := rfl

@[simp] theorem offers_drop (ls : List (Label J κ α τ)) :
    offers (.drop :: ls) = offers ls := rfl

/-- A label list that hands out nothing has no take in it. -/
theorem not_mem_of_takes_nil {ls : List (Label J κ α τ)} (h : takes ls = [])
    (x : α) : .take x ∉ ls := by
  intro hmem
  have : x ∈ takes ls := List.mem_filterMap.mpr ⟨_, hmem, rfl⟩
  rw [h] at this
  cases this

-- ====================================================== segment by state

variable {rd}

/-- From an empty slot nothing is taken before the next offer. -/
theorem takes_idle {ls : List (Label J κ α τ)} :
    ∀ {used : List κ} {b : List κ × Slot J α},
      Trace (Step rd) (used, .idle) ls b → takes (segment ls) = [] := by
  induction ls with
  | nil => intro used b _; rfl
  | cons l ls ih =>
      intro used b h
      cases h with
      | cons hs hrest =>
          cases hs with
          | offer _ => rfl
          | drop => exact ih hrest

/-- Once a job is dropped its segment hands out nothing more. -/
theorem no_take_after_drop {ls l₁ l₂ : List (Label J κ α τ)} {x : α}
    {used : List κ} {b : List κ × Slot J α}
    (h : Trace (Step rd) (used, .idle) ls b)
    (hsplit : .drop :: segment ls = l₁ ++ .take x :: l₂) : False := by
  have hmem : Label.take x ∈ Label.drop :: segment ls := by
    rw [hsplit]
    simp
  rcases List.mem_cons.mp hmem with he | hmem
  · cases he
  · exact not_mem_of_takes_nil (takes_idle h) x hmem

/-- From an open slot the items taken before the next offer are a
prefix of the items left, and none of them comes after a drop. -/
theorem takes_open {ls : List (Label J κ α τ)} :
    ∀ {used : List κ} {j : J} {left : List α} {b : List κ × Slot J α},
      Trace (Step rd) (used, .open j left) ls b →
      takes (segment ls) <+: left
        ∧ ∀ l₁ x l₂, segment ls = l₁ ++ .take x :: l₂ → .drop ∉ l₁ := by
  induction ls with
  | nil =>
      intro used j left b _
      exact ⟨List.nil_prefix, fun l₁ x l₂ h => by simp at h⟩
  | cons l ls ih =>
      intro used j left b h
      cases h with
      | cons hs hrest =>
          cases hs with
          | take =>
              obtain ⟨hpre, hdrop⟩ := ih hrest
              refine ⟨by simpa using hpre, ?_⟩
              intro l₁ x l₂ hsplit
              cases l₁ with
              | nil => simp
              | cons m l₁ =>
                  simp only [segment_take, List.cons_append, List.cons.injEq] at hsplit
                  rw [← hsplit.1]
                  simpa using hdrop l₁ x l₂ hsplit.2
          | drop =>
              refine ⟨by simp [takes_idle hrest], ?_⟩
              intro l₁ x l₂ hsplit
              exact absurd hsplit (fun h => no_take_after_drop hrest h)

/-- From an offered slot: prefix, approval before the first item, and
no item after a drop. -/
theorem takes_offered {ls : List (Label J κ α τ)} {used : List κ} {j : J}
    {b : List κ × Slot J α} (h : Trace (Step rd) (used, .offered j) ls b) :
    takes (segment ls) <+: rd.items j
      ∧ ∀ l₁ x l₂, segment ls = l₁ ++ .take x :: l₂ →
          (∃ t, .approve (rd.key j) t ∈ l₁ ∧ rd.inTime j t) ∧ .drop ∉ l₁ := by
  cases h with
  | nil => exact ⟨List.nil_prefix, fun l₁ x l₂ h => by simp at h⟩
  | cons hs hrest =>
      cases hs with
      | @approve _ _ t ht =>
          obtain ⟨hpre, hdrop⟩ := takes_open hrest
          refine ⟨by simpa using hpre, ?_⟩
          intro l₁ x l₂ hsplit
          cases l₁ with
          | nil => simp at hsplit
          | cons m l₁ =>
              simp only [segment_approve, List.cons_append, List.cons.injEq] at hsplit
              rw [← hsplit.1]
              exact ⟨⟨t, List.mem_cons_self .., ht⟩,
                by simpa using hdrop l₁ x l₂ hsplit.2⟩
      | drop =>
          refine ⟨by simp [takes_idle hrest], ?_⟩
          intro l₁ x l₂ hsplit
          exact absurd hsplit (fun h => no_take_after_drop hrest h)

-- ========================================================= the promises

/-- Cut a trace at an offer: what follows starts from the offered
slot. -/
theorem trace_at_offer {pre post : List (Label J κ α τ)} {j : J}
    {a b : List κ × Slot J α} (h : Trace (Step rd) a (pre ++ .offer j :: post) b) :
    ∃ used, Trace (Step rd) (used, .offered j) post b := by
  obtain ⟨m, -, h₂⟩ := h.split
  cases h₂ with
  | cons hs hrest =>
      cases hs with
      | offer _ => exact ⟨_, hrest⟩

/-- The items taken between an offer and the next one are a prefix of
the offered job's items. -/
theorem takes_prefix {pre post : List (Label J κ α τ)} {j : J}
    {a b : List κ × Slot J α} (h : Trace (Step rd) a (pre ++ .offer j :: post) b) :
    takes (segment post) <+: rd.items j :=
  let ⟨_, h'⟩ := trace_at_offer h
  (takes_offered h').1

/-- An item is taken only after an in-time approval under the key of
the job it belongs to. -/
theorem take_approved {pre post l₁ l₂ : List (Label J κ α τ)} {j : J} {x : α}
    {a b : List κ × Slot J α} (h : Trace (Step rd) a (pre ++ .offer j :: post) b)
    (hseg : segment post = l₁ ++ .take x :: l₂) :
    ∃ t, .approve (rd.key j) t ∈ l₁ ∧ rd.inTime j t :=
  let ⟨_, h'⟩ := trace_at_offer h
  ((takes_offered h').2 l₁ x l₂ hseg).1

/-- No item is taken after a drop. -/
theorem take_before_drop {pre post l₁ l₂ : List (Label J κ α τ)} {j : J} {x : α}
    {a b : List κ × Slot J α} (h : Trace (Step rd) a (pre ++ .offer j :: post) b)
    (hseg : segment post = l₁ ++ .take x :: l₂) : .drop ∉ l₁ :=
  let ⟨_, h'⟩ := trace_at_offer h
  ((takes_offered h').2 l₁ x l₂ hseg).2

/-- An offered job is the last thing a trace says. -/
theorem offered_history {ls : List (Label J κ α τ)} {a b : List κ × Slot J α} {j : J}
    (h : Trace (Step rd) a ls b) (ha : a.2 = .idle) (hb : b.2 = .offered j) :
    ∃ pre, ls = pre ++ [.offer j] := by
  induction ls using List.reverseRecOn with
  | nil =>
      cases h
      rw [ha] at hb
      cases hb
  | append_singleton ls l _ =>
      obtain ⟨m, -, hs⟩ := h.concat_cases
      cases hs with
      | offer =>
          cases hb
          exact ⟨ls, rfl⟩
      | approve => cases hb
      | take => cases hb
      | drop => cases hb

/-- An open slot read backwards: its job was offered, at once approved in
time under its own key, and since then only handed out. -/
theorem open_history {ls : List (Label J κ α τ)} : ∀ {a b : List κ × Slot J α} {j : J}
    {left : List α}, Trace (Step rd) a ls b → a.2 = .idle → b.2 = .open j left →
    ∃ pre t taken, ls = pre ++ .offer j :: .approve (rd.key j) t :: taken.map .take ∧
      rd.inTime j t ∧ taken ++ left = rd.items j := by
  induction ls using List.reverseRecOn with
  | nil =>
      intro a b j left h ha hb
      cases h
      rw [ha] at hb
      cases hb
  | append_singleton ls l ih =>
      intro a b j left h ha hb
      obtain ⟨m, hm, hs⟩ := h.concat_cases
      cases hs with
      | offer => cases hb
      | approve hin =>
          cases hb
          obtain ⟨pre, rfl⟩ := offered_history hm ha rfl
          exact ⟨pre, _, [], by simp, hin, rfl⟩
      | @take _ _ x =>
          cases hb
          obtain ⟨pre, t, taken, rfl, hin, hitems⟩ := ih hm ha rfl
          exact ⟨pre, t, taken ++ [x], by simp, hin, by simpa using hitems⟩
      | drop => cases hb

/-- What is approved stays open while it is handed out. -/
theorem open_of_taken {k : κ} {t : τ} {taken : List α} {a b : List κ × Slot J α}
    (h : Trace (Step rd) a (.approve k t :: taken.map .take) b) :
    ∃ j left, b.2 = .open j left := by
  have hopens : ∀ (taken : List α) {a : List κ × Slot J α}, (∃ j left, a.2 = .open j left) →
      Trace (Step rd) a (taken.map .take) b → ∃ j left, b.2 = .open j left := by
    intro taken
    induction taken with
    | nil =>
        intro a ha h
        cases h
        exact ha
    | cons x taken ih =>
        intro a _ h
        cases h with
        | cons hs hrest =>
            cases hs with
            | take => exact ih ⟨_, _, rfl⟩ hrest
  cases h with
  | cons hs hrest =>
      cases hs with
      | approve => exact hopens taken ⟨_, _, rfl⟩ hrest

/-- The ledger grows by exactly the keys offered, and stays free of
duplicates. -/
theorem ledger_eq {ls : List (Label J κ α τ)} :
    ∀ {a b : List κ × Slot J α}, Trace (Step rd) a ls b → a.1.Nodup →
      b.1 = a.1 ++ (offers ls).map rd.key ∧ b.1.Nodup := by
  induction ls with
  | nil =>
      intro a b h hnd
      cases h
      simpa using hnd
  | cons l ls ih =>
      intro a b h hnd
      cases h with
      | cons hs hrest =>
          cases hs with
          | @offer used j hj =>
              have hnd' : (used ++ [rd.key j]).Nodup := by
                rw [List.nodup_append]
                refine ⟨hnd, by simp, ?_⟩
                intro k hk k' hk' he
                simp only [List.mem_singleton] at hk'
                exact hj (hk' ▸ he ▸ hk)
              obtain ⟨he, hn⟩ := ih hrest hnd'
              exact ⟨by simp [he], hn⟩
          | approve _ => simpa using ih hrest hnd
          | take => simpa using ih hrest hnd
          | drop => simpa using ih hrest hnd

/-- No key is offered twice along a trace that starts with an empty
ledger. -/
theorem offers_nodup {ls : List (Label J κ α τ)} {s : Slot J α}
    {b : List κ × Slot J α} (h : Trace (Step rd) ([], s) ls b) :
    ((offers ls).map rd.key).Nodup := by
  obtain ⟨he, hn⟩ := ledger_eq h List.nodup_nil
  simpa [he] using hn

end Lib.OneShot
