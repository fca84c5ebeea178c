/-
Stop-and-wait: a client that issues its next request only once the
previous one was answered, and a server that handles requests in the
order they were issued, at arbitrary types.

# What holds

`Step` lets the server handle only the next request, and the client
accept only the next answer the server gave. Nothing else is fixed: a
request may be handled and not answered, and either side may stop. Then
the two counters meet at every accepted answer (`accept_settles`): the
server has handled exactly what was issued, each request once, and the
answer is the one it gave to the last.
-/
import PicoBridge.Lib.Machine

namespace Lib.Lockstep

variable {κ ρ : Type*}

-- ============================================================ the exchange

/-- Requests issued, requests handled with the answer given, if one was,
and answers accepted. -/
structure Exchange (κ ρ : Type*) where
  issued : List κ
  handled : List (κ × Option ρ)
  accepted : List ρ

/-- What happens in an exchange. -/
inductive Event (κ ρ : Type*)
  | issue (c : κ)
  | handle (c : κ) (answer : Option ρ)
  | accept (r : ρ)
  deriving DecidableEq

/-- Before the first request. -/
def Exchange.init : Exchange κ ρ := ⟨[], [], []⟩

/-- The answers given, in order. -/
def Exchange.answers (a : Exchange κ ρ) : List ρ := a.handled.filterMap Prod.snd

inductive Step : Exchange κ ρ → Event κ ρ → Exchange κ ρ → Prop
  | issue {a : Exchange κ ρ} (c : κ) (hidle : a.issued.length = a.accepted.length) :
      Step a (.issue c) { a with issued := a.issued ++ [c] }
  | handle {a : Exchange κ ρ} {c : κ} (answer : Option ρ)
      (hnext : a.issued[a.handled.length]? = some c) :
      Step a (.handle c answer) { a with handled := a.handled ++ [(c, answer)] }
  | accept {a : Exchange κ ρ} {r : ρ} (hwaiting : a.accepted.length < a.issued.length)
      (hnext : a.answers[a.accepted.length]? = some r) :
      Step a (.accept r) { a with accepted := a.accepted ++ [r] }

-- =========================================================== the invariant

/-- The server is never ahead of the client, nor the client two requests
ahead of its answers. -/
structure Inv (a : Exchange κ ρ) : Prop where
  handled : a.handled.map Prod.fst <+: a.issued
  waiting : a.issued.length ≤ a.accepted.length + 1

theorem inv_init : Inv (Exchange.init : Exchange κ ρ) := ⟨List.nil_prefix, Nat.zero_le _⟩

/-- A prefix grows by the element after it. -/
theorem prefix_snoc {l m : List κ} {c : κ} (h : l <+: m) (hc : m[l.length]? = some c) :
    l ++ [c] <+: m := by
  obtain ⟨rest, rfl⟩ := h
  rw [List.getElem?_append_right (Nat.le_refl _), Nat.sub_self] at hc
  cases rest with
  | nil => cases hc
  | cons d rest =>
      cases hc
      exact ⟨rest, by rw [List.append_assoc, List.singleton_append]⟩

theorem Inv.step {a b : Exchange κ ρ} {e : Event κ ρ} (h : Inv a) (hs : Step a e b) : Inv b := by
  cases hs with
  | issue c hidle =>
      refine ⟨h.handled.trans (List.prefix_append _ _), ?_⟩
      rw [List.length_append, hidle]
      exact Nat.le_refl _
  | @handle c answer hnext =>
      refine ⟨?_, h.waiting⟩
      rw [List.map_append, List.map_cons, List.map_nil]
      refine prefix_snoc h.handled ?_
      rwa [List.length_map]
  | accept hwaiting hnext =>
      refine ⟨h.handled, ?_⟩
      have hle := h.waiting
      show a.issued.length ≤ (a.accepted ++ [_]).length + 1
      rw [List.length_append]
      omega

/-- When every element of a list carries an answer, they are the
answers. -/
theorem map_snd_of_length {l : List (κ × Option ρ)}
    (h : (l.filterMap Prod.snd).length = l.length) :
    l.map Prod.snd = (l.filterMap Prod.snd).map some := by
  induction l with
  | nil => rfl
  | cons p l ih =>
      obtain ⟨c, answer⟩ := p
      have hle := List.length_filterMap_le Prod.snd l
      cases answer with
      | none =>
          have hcons : ((c, none) :: l).filterMap Prod.snd = l.filterMap (@Prod.snd κ (Option ρ)) :=
            rfl
          rw [hcons, List.length_cons] at h
          omega
      | some r =>
          have hcons : ((c, some r) :: l).filterMap Prod.snd = r :: l.filterMap Prod.snd := rfl
          rw [hcons, List.length_cons, List.length_cons] at h
          rw [hcons, List.map_cons, List.map_cons, ih (by omega)]

/-- An accepted answer settles the exchange: everything issued has been
handled, once and in order, and the answer is the last one given. -/
theorem accept_settles {a b : Exchange κ ρ} {r : ρ} (h : Inv a) (hs : Step a (.accept r) b) :
    a.handled.map Prod.fst = a.issued ∧ a.issued.length = a.accepted.length + 1 ∧
      ∃ c, a.handled.getLast? = some (c, some r) := by
  cases hs with
  | accept hwaiting hnext =>
      obtain ⟨hlt, hget⟩ := List.getElem?_eq_some_iff.mp hnext
      have hanswers : a.answers.length ≤ a.handled.length := List.length_filterMap_le _ _
      have hhandled := h.handled.length_le
      have hwait := h.waiting
      rw [List.length_map] at hhandled
      have hall : a.answers.length = a.handled.length := by omega
      have hlength : a.handled.length = a.accepted.length + 1 := by omega
      refine ⟨?_, by omega, ?_⟩
      · exact h.handled.eq_of_length (by rw [List.length_map]; omega)
      · have hlast : (a.handled.map Prod.snd)[a.accepted.length]? = some (some r) := by
          rw [map_snd_of_length hall, List.getElem?_map]
          exact congrArg (Option.map some) hnext
        rw [List.getElem?_map, Option.map_eq_some_iff] at hlast
        obtain ⟨⟨c, answer⟩, hget', hanswer⟩ := hlast
        cases hanswer
        refine ⟨c, ?_⟩
        rw [List.getLast?_eq_getElem?, hlength, Nat.add_sub_cancel]
        exact hget'

-- ================================================================ histories

/-- The events of an exchange, sorted. -/
def issues : List (Event κ ρ) → List κ
  | [] => []
  | .issue c :: es => c :: issues es
  | _ :: es => issues es

def handles : List (Event κ ρ) → List (κ × Option ρ)
  | [] => []
  | .handle c answer :: es => (c, answer) :: handles es
  | _ :: es => handles es

def accepts : List (Event κ ρ) → List ρ
  | [] => []
  | .accept r :: es => r :: accepts es
  | _ :: es => accepts es

/-- A trace adds its events to the exchange, and keeps the invariant. -/
theorem trace_history {a b : Exchange κ ρ} {es : List (Event κ ρ)} (h : Inv a)
    (ht : Trace Step a es b) :
    Inv b ∧ b.issued = a.issued ++ issues es ∧ b.handled = a.handled ++ handles es ∧
      b.accepted = a.accepted ++ accepts es := by
  induction ht with
  | nil a => simp [h, issues, handles, accepts]
  | cons hs _ ih =>
      obtain ⟨hinv, hissued, hhandled, haccepted⟩ := ih (h.step hs)
      refine ⟨hinv, ?_⟩
      rw [hissued, hhandled, haccepted]
      cases hs <;> simp [issues, handles, accepts]

/-- Wherever an answer is accepted in a history, it settles what came
before. -/
theorem trace_accept {b : Exchange κ ρ} {before after : List (Event κ ρ)} {r : ρ}
    (ht : Trace Step Exchange.init (before ++ .accept r :: after) b) :
    (handles before).map Prod.fst = issues before ∧
      (issues before).length = (accepts before).length + 1 ∧
      ∃ c, (handles before).getLast? = some (c, some r) := by
  obtain ⟨m, hbefore, hrest⟩ := ht.split
  obtain ⟨hinv, hissued, hhandled, haccepted⟩ := trace_history inv_init hbefore
  cases hrest with
  | cons hs _ =>
      have hsettled := accept_settles hinv hs
      rw [hissued, hhandled, haccepted] at hsettled
      exact hsettled

end Lib.Lockstep
