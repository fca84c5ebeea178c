/-
Python's `dict`: items in the order their keys were first set, each key
once.
-/
import Mathlib.Data.List.Induction
import Mathlib.Data.List.Nodup

namespace Lib

/-- A `dict`. -/
structure Dict (κ α : Type*) where
  items : List (κ × α)
  nodup : (items.map Prod.fst).Nodup

namespace Dict

variable {κ α β : Type*} [DecidableEq κ]

/-- The first value of a key. -/
def find (key : κ) : List (κ × α) → Option α
  | [] => none
  | m :: items => if m.1 = key then some m.2 else find key items

/-- `d.get(key)`. -/
def get (d : Dict κ α) (key : κ) : Option α := find key d.items

def empty : Dict κ α := ⟨[], List.nodup_nil⟩

/-- The items behind `d[key] = value`: a key that is there keeps its place. -/
def setItems (key : κ) (value : α) : List (κ × α) → List (κ × α)
  | [] => [(key, value)]
  | m :: items => if m.1 = key then (key, value) :: items else m :: setItems key value items

theorem mem_setItems (key : κ) (value : α) (items : List (κ × α)) (k : κ) :
    k ∈ (setItems key value items).map Prod.fst ↔ k = key ∨ k ∈ items.map Prod.fst := by
  induction items with
  | nil => simp [setItems]
  | cons m items ih =>
      rw [setItems]
      split
      next h => simp [h]
      next h =>
        rw [List.map_cons, List.mem_cons, ih, List.map_cons, List.mem_cons]
        exact or_left_comm

theorem nodup_setItems (key : κ) (value : α) {items : List (κ × α)}
    (h : (items.map Prod.fst).Nodup) : ((setItems key value items).map Prod.fst).Nodup := by
  induction items with
  | nil => exact List.nodup_singleton key
  | cons m items ih =>
      rw [List.map_cons, List.nodup_cons] at h
      rw [setItems]
      split
      next hkey =>
        rw [List.map_cons, List.nodup_cons, ← hkey]
        exact h
      next hkey =>
        rw [List.map_cons, List.nodup_cons, mem_setItems, not_or]
        exact ⟨⟨hkey, h.1⟩, ih h.2⟩

/-- `d[key] = value`. -/
def set (d : Dict κ α) (key : κ) (value : α) : Dict κ α :=
  ⟨setItems key value d.items, nodup_setItems key value d.nodup⟩

/-- `dict(pairs)`. -/
def ofList (pairs : List (κ × α)) : Dict κ α := pairs.foldl (fun d m => d.set m.1 m.2) empty

/-- `d[key] = value`, if there is a value. -/
def setSome (d : Dict κ α) (key : κ) : Option α → Dict κ α
  | none => d
  | some value => d.set key value

/-- `for key, value in d.items()`, into a new `dict` under the same keys. -/
def filterMap (f : κ → α → Option β) (d : Dict κ α) : Dict κ β :=
  d.items.foldl (fun e m => e.setSome m.1 (f m.1 m.2)) empty

theorem get_empty (key : κ) : (empty : Dict κ α).get key = none := rfl

theorem get_set (d : Dict κ α) (key : κ) (value : α) (k : κ) :
    (d.set key value).get k = if key = k then some value else d.get k := by
  obtain ⟨items, h⟩ := d
  unfold get set
  dsimp only
  clear h
  induction items with
  | nil => rfl
  | cons m items ih =>
      rw [setItems]
      split
      next hkey =>
        rw [find, find]
        split
        · rfl
        next hk => rw [if_neg (by rw [hkey]; exact hk)]
      next hkey =>
        rw [find, find, ih]
        split
        next hm => rw [if_neg (by rw [← hm]; exact Ne.symm hkey)]
        · rfl

theorem find_eq (key : κ) (items : List (κ × α)) :
    find key items = (items.find? fun m => m.1 = key).map Prod.snd := by
  induction items with
  | nil => rfl
  | cons m items ih =>
      rw [find, List.find?_cons]
      split
      next h => simp [h]
      next h => simp [h, ih]

/-- The last value of a key stands. -/
theorem get_ofList (pairs : List (κ × α)) (key : κ) :
    (ofList pairs).get key = find key pairs.reverse := by
  induction pairs using List.reverseRecOn with
  | nil => rfl
  | append_singleton pairs m ih =>
      unfold ofList at ih ⊢
      rw [List.foldl_append, List.foldl_cons, List.foldl_nil, get_set, ih, List.reverse_append]
      rfl

theorem find_not_mem {key : κ} {items : List (κ × α)} (h : key ∉ items.map Prod.fst) :
    find key items = none := by
  induction items with
  | nil => rfl
  | cons m items ih =>
      rw [List.map_cons, List.mem_cons, not_or] at h
      rw [find, if_neg (Ne.symm h.1), ih h.2]

theorem get_setSome (d : Dict κ α) (key : κ) (value : Option α) (k : κ) :
    (d.setSome key value).get k = if key = k then value.or (d.get k) else d.get k := by
  cases value with
  | none =>
      rw [Option.none_or, ite_self]
      rfl
  | some value => exact get_set d key value k

theorem get_foldl_setSome (f : κ → α → Option β) {items : List (κ × α)} (key : κ) :
    ∀ {e : Dict κ β}, (items.map Prod.fst).Nodup →
      (items.foldl (fun e m => e.setSome m.1 (f m.1 m.2)) e).get key
        = ((find key items).bind (f key)).or (e.get key) := by
  induction items with
  | nil => exact fun _ => rfl
  | cons m items ih =>
      intro e h
      rw [List.map_cons, List.nodup_cons] at h
      rw [List.foldl_cons, ih h.2, get_setSome, find]
      split
      next hkey =>
        rw [find_not_mem (by rw [← hkey]; exact h.1), hkey]
        rfl
      · rfl

/-- The value behind a loop over the items is made of that before it. -/
theorem get_filterMap (f : κ → α → Option β) (d : Dict κ α) (key : κ) :
    (d.filterMap f).get key = (d.get key).bind (f key) := by
  unfold filterMap
  rw [get_foldl_setSome f key d.nodup, get_empty, Option.or_none]
  rfl

end Dict

end Lib
