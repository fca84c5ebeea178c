/-
UTF-8 by its bytes, and codes that can be read from left to right.

# The two descriptions

`String.utf8EncodeChar` is the encoder of a `Char`, which is a Unicode
scalar value: a code point up to U+10FFFF that is no surrogate. `Spells`
is the table of RFC 3629 read the other way, from bytes to the code point.
`spells_iff` says that they are one: the spellings of a code point are
the encoding of its `Char`, so a byte string is well-formed (`WellFormed`)
where it is a concatenation of spellings.

# Codes

Where each codeword tells, whatever follows it, which one it is, the
concatenations tell the lists (`PrefixCode.flatMap_inj`). UTF-8 is such a
code (`utf8_code`).
-/
import Mathlib.Tactic

namespace Lib

-- ================================================================== codes

variable {α β : Type*}

/-- A code for the symbols with `P` whose words are read from left to
right. -/
structure PrefixCode (P : α → Prop) (code : α → List β) : Prop where
  nonempty : ∀ {a}, P a → code a ≠ []
  determined : ∀ {a b r s}, P a → P b → code a ++ r = code b ++ s → a = b

/-- Its concatenations determine what they spell. -/
theorem PrefixCode.flatMap_inj {P : α → Prop} {code : α → List β} (h : PrefixCode P code)
    {as : List α} : ∀ {bs : List α}, (∀ a ∈ as, P a) → (∀ b ∈ bs, P b) →
      as.flatMap code = bs.flatMap code → as = bs := by
  induction as with
  | nil =>
      intro bs _ hbs heq
      cases bs with
      | nil => rfl
      | cons b bs =>
          have hnil : code b ++ bs.flatMap code = [] := heq.symm
          exact absurd (List.append_eq_nil_iff.mp hnil).1 (h.nonempty (hbs b List.mem_cons_self))
  | cons a as ih =>
      intro bs has hbs heq
      cases bs with
      | nil =>
          have hnil : code a ++ as.flatMap code = [] := heq
          exact absurd (List.append_eq_nil_iff.mp hnil).1 (h.nonempty (has a List.mem_cons_self))
      | cons b bs =>
          rw [List.flatMap_cons, List.flatMap_cons] at heq
          obtain rfl := h.determined (has a List.mem_cons_self) (hbs b List.mem_cons_self) heq
          rw [ih (fun c hc => has c (List.mem_cons_of_mem _ hc))
            (fun c hc => hbs c (List.mem_cons_of_mem _ hc)) (List.append_cancel_left heq)]

namespace Utf8

open String (utf8EncodeChar)

-- ============================================================== the table

/-- `UTF8-tail` of RFC 3629. -/
def Trail (b : UInt8) : Prop := 0x80 ≤ b.toNat ∧ b.toNat ≤ 0xbf

instance : DecidablePred Trail := fun _ => inferInstanceAs (Decidable (_ ∧ _))

/-- The code point of a byte sequence of RFC 3629: in the shortest form,
no surrogate, and at most U+10FFFF. -/
def Spells (v : Nat) : List UInt8 → Prop
  | [a] => a.toNat < 0x80 ∧ v = a.toNat
  | [a, b] => (0xc2 ≤ a.toNat ∧ a.toNat ≤ 0xdf) ∧ Trail b ∧
      v = (a.toNat - 0xc0) * 64 + (b.toNat - 0x80)
  | [a, b, c] => (0xe0 ≤ a.toNat ∧ a.toNat ≤ 0xef) ∧ Trail b ∧ Trail c ∧
      v = ((a.toNat - 0xe0) * 64 + (b.toNat - 0x80)) * 64 + (c.toNat - 0x80) ∧
      0x800 ≤ v ∧ ¬(0xd800 ≤ v ∧ v ≤ 0xdfff)
  | [a, b, c, d] => (0xf0 ≤ a.toNat ∧ a.toNat ≤ 0xf4) ∧ Trail b ∧ Trail c ∧ Trail d ∧
      v = (((a.toNat - 0xf0) * 64 + (b.toNat - 0x80)) * 64 + (c.toNat - 0x80)) * 64
        + (d.toNat - 0x80) ∧
      0x10000 ≤ v ∧ v ≤ 0x10ffff
  | _ => False

/-- A `Char` is not a surrogate and at most U+10FFFF. -/
theorem toNat_valid (c : Char) : c.toNat < 0xd800 ∨ 0xdfff < c.toNat ∧ c.toNat < 0x110000 :=
  c.valid

theorem toNat_char {v : Nat} (h : v.isValidChar) : (Char.ofNat v).toNat = v := by
  unfold Char.ofNat
  rw [dif_pos h]
  rfl

theorem exists_char {v : Nat} (h : v < 0xd800 ∨ 0xdfff < v ∧ v < 0x110000) :
    ∃ c : Char, c.toNat = v :=
  ⟨Char.ofNat v, toNat_char h⟩

theorem toNat_ofNat {n : Nat} (h : n < 256) : (UInt8.ofNat n).toNat = n :=
  UInt8.toNat_ofNat_of_lt' h

/-- The encoding of a character spells it. -/
theorem spells_encode (c : Char) : Spells c.toNat (utf8EncodeChar c) := by
  have hvalid := toNat_valid c
  unfold utf8EncodeChar
  have hval : c.val.toNat = c.toNat := rfl
  dsimp only
  rw [hval]
  generalize c.toNat = v at hvalid
  split
  · simp only [Spells]
    rw [toNat_ofNat (by omega)]
    omega
  split
  · simp only [Spells, Trail]
    rw [toNat_ofNat (by omega), toNat_ofNat (by omega)]
    omega
  split
  · simp only [Spells, Trail]
    rw [toNat_ofNat (by omega), toNat_ofNat (by omega), toNat_ofNat (by omega)]
    omega
  · simp only [Spells, Trail]
    rw [toNat_ofNat (by omega), toNat_ofNat (by omega), toNat_ofNat (by omega),
      toNat_ofNat (by omega)]
    omega

/-- A byte by its value. -/
theorem ofNat_eq {n : Nat} {b : UInt8} (h : n = b.toNat) : UInt8.ofNat n = b := by
  rw [h]
  exact UInt8.ofNat_toNat

/-- What a code point is spelled with is the encoding of its character. -/
theorem encode_of_spells {c : Char} {w : List UInt8} (h : Spells c.toNat w) :
    utf8EncodeChar c = w := by
  unfold utf8EncodeChar
  have hval : c.val.toNat = c.toNat := rfl
  dsimp only
  rw [hval]
  generalize c.toNat = v at h
  match w, h with
  | [a], h =>
      obtain ⟨ha, hv⟩ := h
      rw [if_pos (by omega), ofNat_eq hv]
  | [a, b], h =>
      obtain ⟨ha, hb, hv⟩ := h
      unfold Trail at hb
      rw [if_neg (by omega), if_pos (by omega), @ofNat_eq _ a (by omega),
        @ofNat_eq _ b (by omega)]
  | [a, b, c], h =>
      obtain ⟨ha, hb, hc, hv, hmin, -⟩ := h
      unfold Trail at hb hc
      rw [if_neg (by omega), if_neg (by omega), if_pos (by omega), @ofNat_eq _ a (by omega),
        @ofNat_eq _ b (by omega), @ofNat_eq _ c (by omega)]
  | [a, b, c, d], h =>
      obtain ⟨ha, hb, hc, hd, hv, hmin, -⟩ := h
      unfold Trail at hb hc hd
      rw [if_neg (by omega), if_neg (by omega), if_neg (by omega), @ofNat_eq _ a (by omega),
        @ofNat_eq _ b (by omega), @ofNat_eq _ c (by omega), @ofNat_eq _ d (by omega)]

/-- A code point that is spelled is a scalar value. -/
theorem Spells.valid {v : Nat} {w : List UInt8} (h : Spells v w) :
    v < 0xd800 ∨ 0xdfff < v ∧ v < 0x110000 := by
  match w, h with
  | [a], h =>
      obtain ⟨ha, hv⟩ := h
      omega
  | [a, b], h =>
      obtain ⟨ha, hb, hv⟩ := h
      unfold Trail at hb
      omega
  | [a, b, c], h =>
      obtain ⟨ha, hb, hc, hv, -, hno⟩ := h
      unfold Trail at hb hc
      omega
  | [a, b, c, d], h =>
      obtain ⟨ha, hb, hc, hd, hv, hmin, hmax⟩ := h
      omega

/-- A byte of ASCII stands for itself. -/
theorem Spells.ascii {v : Nat} {w : List UInt8} (h : Spells v w) {b : UInt8} (hb : b ∈ w)
    (hlt : b.toNat < 0x80) : v = b.toNat := by
  match w, h with
  | [a], h =>
      rw [List.mem_singleton.mp hb]
      exact h.2
  | [a, a₁], h =>
      obtain ⟨ha, h₁, -⟩ := h
      unfold Trail at h₁
      simp only [List.mem_cons, List.not_mem_nil, or_false] at hb
      rcases hb with rfl | rfl <;> omega
  | [a, a₁, a₂], h =>
      obtain ⟨ha, h₁, h₂, -⟩ := h
      unfold Trail at h₁ h₂
      simp only [List.mem_cons, List.not_mem_nil, or_false] at hb
      rcases hb with rfl | rfl | rfl <;> omega
  | [a, a₁, a₂, a₃], h =>
      obtain ⟨ha, h₁, h₂, h₃, -⟩ := h
      unfold Trail at h₁ h₂ h₃
      simp only [List.mem_cons, List.not_mem_nil, or_false] at hb
      rcases hb with rfl | rfl | rfl | rfl <;> omega

/-- The table and the encoder are one. -/
theorem spells_iff {v : Nat} {w : List UInt8} :
    Spells v w ↔ ∃ c : Char, c.toNat = v ∧ utf8EncodeChar c = w := by
  constructor
  · intro h
    obtain ⟨c, rfl⟩ := exists_char h.valid
    exact ⟨c, rfl, encode_of_spells h⟩
  · rintro ⟨c, rfl, rfl⟩
    exact spells_encode c

-- ============================================================= the strings

/-- A string of characters in UTF-8. -/
def encode (cs : List Char) : List UInt8 := cs.flatMap utf8EncodeChar

/-- A byte string that is UTF-8. -/
def WellFormed (bytes : List UInt8) : Prop := ∃ cs, bytes = encode cs

@[simp] theorem encode_nil : encode [] = [] := rfl

@[simp] theorem encode_cons (c : Char) (cs : List Char) :
    encode (c :: cs) = utf8EncodeChar c ++ encode cs := rfl

/-- The encoding of a character tells how long it is by its first byte. -/
theorem utf8_code : PrefixCode (fun _ : Char => True) utf8EncodeChar where
  nonempty := by
    intro c _ hnil
    have hspells := spells_encode c
    rw [hnil] at hspells
    exact hspells
  determined := by
    intro c d r s _ _ heq
    have hbytes : ((utf8EncodeChar c).toByteArray ++ r.toByteArray)
        = (utf8EncodeChar d).toByteArray ++ s.toByteArray := by
      rw [← List.toByteArray_append, heq, List.toByteArray_append]
    have hdecode := @ByteArray.utf8DecodeChar?_utf8EncodeChar_append r.toByteArray c
    rw [hbytes, ByteArray.utf8DecodeChar?_utf8EncodeChar_append] at hdecode
    exact (Option.some.inj hdecode).symm

theorem encode_inj {cs ds : List Char} (h : encode cs = encode ds) : cs = ds :=
  utf8_code.flatMap_inj (fun _ _ => trivial) (fun _ _ => trivial) h

end Utf8

end Lib
