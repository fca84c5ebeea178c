/-
An area of tag-length-value options: each is its tag, the length of its
value in a byte, and its value; a 0 where a tag could be is a pad, and a 255
there is the end.

What stands in an area is determined by its bytes (`read_iff`), whatever
comes behind its end.
-/
import Mathlib.Data.List.Basic

namespace Lib.Tlv

-- ================================================================ the areas

/-- An option that can be written. -/
structure Item where
  tag : UInt8
  value : List UInt8
  isTag : tag ≠ 0 ∧ tag ≠ 255
  fits : value.length < 256

/-- What an area is made of. -/
inductive Field where
  | pad
  | option (o : Item)

def Field.bytes : Field → List UInt8
  | .pad => [0]
  | .option o => o.tag :: UInt8.ofNat o.value.length :: o.value

/-- The bytes of an area, and what comes behind it. -/
def area (fields : List Field) (rest : List UInt8) : List UInt8 :=
  fields.flatMap Field.bytes ++ 255 :: rest

/-- The value of an option of a tag. -/
def Field.valueOf (tag : UInt8) : Field → Option (List UInt8)
  | .pad => none
  | .option o => if o.tag = tag then some o.value else none

/-- The values of the options of a tag, in order. -/
def values (tag : UInt8) (fields : List Field) : List (List UInt8) :=
  fields.filterMap (Field.valueOf tag)

@[simp] theorem area_pad (fields : List Field) (rest : List UInt8) :
    area (.pad :: fields) rest = 0 :: area fields rest := rfl

@[simp] theorem area_option (o : Item) (fields : List Field) (rest : List UInt8) :
    area (.option o :: fields) rest
      = o.tag :: UInt8.ofNat o.value.length :: (o.value ++ area fields rest) := by
  simp [area, Field.bytes]

theorem values_option (tag : UInt8) (o : Item) (fields : List Field) :
    values tag (.option o :: fields)
      = if o.tag = tag then o.value :: values tag fields else values tag fields := by
  unfold values
  rw [List.filterMap_cons, Field.valueOf]
  split
  next h =>
    split at h
    · cases h
    next htag => rw [if_neg htag]
  next h =>
    split at h
    next htag =>
      cases h
      rw [if_pos htag]
    · cases h

-- =============================================================== the reader

/-- The fields of an area, or none for bytes that end before it does. -/
def read : List UInt8 → Option (List Field)
  | [] => none
  | tag :: bytes =>
      if hpad : tag = 0 then (read bytes).map (.pad :: ·)
      else if hend : tag = 255 then some []
      else
        match bytes with
        | [] => none
        | len :: bytes =>
            if len.toNat ≤ bytes.length then
              let o : Item := {
                tag := tag
                value := bytes.take len.toNat
                isTag := ⟨hpad, hend⟩
                fits := Nat.lt_of_le_of_lt (List.length_take_le _ _) len.toNat_lt }
              (read (bytes.drop len.toNat)).map (.option o :: ·)
            else none
termination_by bytes => bytes.length
decreasing_by
  · exact Nat.lt_succ_self _
  · rw [List.length_drop]
    exact Nat.lt_of_le_of_lt (Nat.sub_le _ _) (Nat.lt_succ_of_lt (Nat.lt_succ_self _))

theorem read_nil : read [] = none := by rw [read]

theorem read_pad (bytes : List UInt8) : read (0 :: bytes) = (read bytes).map (.pad :: ·) := by
  rw [read, dif_pos rfl]

theorem read_end (bytes : List UInt8) : read (255 :: bytes) = some [] := by
  rw [read, dif_neg (by decide), dif_pos rfl]

theorem read_option (o : Item) (bytes : List UInt8) :
    read (o.tag :: UInt8.ofNat o.value.length :: (o.value ++ bytes))
      = (read bytes).map (.option o :: ·) := by
  have hlen : (UInt8.ofNat o.value.length).toNat = o.value.length :=
    UInt8.toNat_ofNat_of_lt' o.fits
  rw [read, dif_neg o.isTag.1, dif_neg o.isTag.2]
  simp [hlen]

theorem read_bare {tag : UInt8} (hpad : tag ≠ 0) (hend : tag ≠ 255) : read [tag] = none := by
  rw [read, dif_neg hpad, dif_neg hend]

theorem read_cut {tag len : UInt8} {bytes : List UInt8} (hpad : tag ≠ 0) (hend : tag ≠ 255)
    (hcut : bytes.length < len.toNat) : read (tag :: len :: bytes) = none := by
  rw [read, dif_neg hpad, dif_neg hend]
  exact if_neg (Nat.not_le.mpr hcut)

/-- Induction over what stands at the head of bytes: nothing, a pad, the
end, an option, a tag without a length, or an option that is cut off. -/
@[elab_as_elim]
theorem read_induction {motive : List UInt8 → Prop} (bytes : List UInt8) (nil : motive [])
    (pad : ∀ rest, motive rest → motive (0 :: rest)) (stop : ∀ rest, motive (255 :: rest))
    (option : ∀ (o : Item) rest, motive rest →
      motive (o.tag :: UInt8.ofNat o.value.length :: (o.value ++ rest)))
    (bare : ∀ tag : UInt8, tag ≠ 0 → tag ≠ 255 → motive [tag])
    (cut : ∀ (tag len : UInt8) rest, tag ≠ 0 → tag ≠ 255 → rest.length < len.toNat →
      motive (tag :: len :: rest)) : motive bytes := by
  fun_induction read bytes with
  | case1 => exact nil
  | case2 bytes ih => exact pad bytes ih
  | case3 bytes => exact stop bytes
  | case4 tag hpad hend => exact bare tag hpad hend
  | case5 tag hpad hend len bytes hlen o ih =>
      have htake : (bytes.take len.toNat).length = len.toNat := by
        rw [List.length_take, Nat.min_eq_left hlen]
      have h := option o _ ih
      simp only [o, htake, UInt8.ofNat_toNat, List.take_append_drop] at h
      exact h
  | case6 tag hpad hend len bytes hlen => exact cut tag len bytes hpad hend (Nat.not_le.mp hlen)

/-- The reader finds what an area is made of, and nothing else. -/
theorem read_iff {bytes : List UInt8} {fields : List Field} :
    read bytes = some fields ↔ ∃ rest, bytes = area fields rest := by
  constructor
  · induction bytes using read_induction generalizing fields with
    | nil =>
        intro h
        rw [read_nil] at h
        cases h
    | pad bytes ih =>
        intro h
        rw [read_pad] at h
        obtain ⟨fields, hread, rfl⟩ := Option.map_eq_some_iff.mp h
        obtain ⟨rest, rfl⟩ := ih hread
        exact ⟨rest, rfl⟩
    | stop bytes =>
        intro h
        rw [read_end] at h
        cases h
        exact ⟨bytes, rfl⟩
    | option o bytes ih =>
        intro h
        rw [read_option] at h
        obtain ⟨fields, hread, rfl⟩ := Option.map_eq_some_iff.mp h
        obtain ⟨rest, rfl⟩ := ih hread
        exact ⟨rest, (area_option o fields rest).symm⟩
    | bare tag hpad hend =>
        intro h
        rw [read_bare hpad hend] at h
        cases h
    | cut tag len rest hpad hend hcut =>
        intro h
        rw [read_cut hpad hend hcut] at h
        cases h
  · rintro ⟨rest, rfl⟩
    induction fields with
    | nil => exact read_end rest
    | cons field fields ih =>
        cases field with
        | pad =>
            rw [area_pad, read_pad, ih]
            rfl
        | option o =>
            rw [area_option, read_option, ih]
            rfl

end Lib.Tlv
