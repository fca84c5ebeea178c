/-
Base64 (the standard alphabet, padded), and its strict decoder.

The decoder takes groups of four digits, the last of them padded. The bits
of a padded group that belong to no byte are not looked at.
-/
import Mathlib.Data.List.Basic

namespace Lib.Base64

-- ============================================================== the digits

/-- `A-Z`, `a-z`, `0-9`, `+` and `/`. -/
def digit (n : Nat) : UInt8 :=
  if n < 26 then UInt8.ofNat (65 + n)
  else if n < 52 then UInt8.ofNat (71 + n)
  else if n < 62 then UInt8.ofNat (n - 4)
  else if n = 62 then 43
  else 47

def digitValue (c : UInt8) : Option Nat :=
  if 65 ≤ c ∧ c ≤ 90 then some (c.toNat - 65)
  else if 97 ≤ c ∧ c ≤ 122 then some (c.toNat - 71)
  else if 48 ≤ c ∧ c ≤ 57 then some (c.toNat + 4)
  else if c = 43 then some 62
  else if c = 47 then some 63
  else none

/-- `=`. -/
def pad : UInt8 := 61

theorem digit_facts : ∀ n < 64, digitValue (digit n) = some n ∧ digit n ≠ pad ∧ digit n ≤ 126 ∧
    32 ≤ digit n ∧ digit n ≠ 34 ∧ digit n ≠ 92 := by
  decide

@[simp] theorem digitValue_digit {n : Nat} (h : n < 64) : digitValue (digit n) = some n :=
  (digit_facts n h).1

theorem digit_ne_pad {n : Nat} (h : n < 64) : digit n ≠ pad := (digit_facts n h).2.1

-- =============================================================== the codec

/-- Three bytes are four digits; one or two at the end are padded. -/
def encode : List UInt8 → List UInt8
  | a :: b :: c :: rest =>
      let n := a.toNat * 65536 + b.toNat * 256 + c.toNat
      digit (n / 262144) :: digit (n / 4096 % 64) :: digit (n / 64 % 64) :: digit (n % 64) ::
        encode rest
  | [a, b] =>
      let n := a.toNat * 1024 + b.toNat * 4
      [digit (n / 4096), digit (n / 64 % 64), digit (n % 64), pad]
  | [a] => [digit (a.toNat / 4), digit (a.toNat * 16 % 64), pad, pad]
  | [] => []

/-- The bytes of a group. -/
def decode : List UInt8 → Option (List UInt8)
  | [] => some []
  | a :: b :: c :: d :: rest => do
      let x ← digitValue a
      let y ← digitValue b
      if c = pad then
        if d = pad ∧ rest = [] then some [UInt8.ofNat (x * 4 + y / 16)] else none
      else do
        let z ← digitValue c
        if d = pad then
          if rest = [] then some [UInt8.ofNat (x * 4 + y / 16), UInt8.ofNat (y * 16 + z / 4)]
          else none
        else do
          let w ← digitValue d
          let bytes ← decode rest
          some (UInt8.ofNat (x * 4 + y / 16) :: UInt8.ofNat (y * 16 + z / 4) ::
            UInt8.ofNat (z * 64 + w) :: bytes)
  | _ => none

/-- A byte is the low bits of any number that ends in it. -/
theorem ofNat_byte {n : Nat} {b : UInt8} (h : n % 256 = b.toNat) : UInt8.ofNat n = b := by
  apply UInt8.toNat_inj.mp
  rw [UInt8.toNat_ofNat', h]

theorem decode_encode (bytes : List UInt8) : decode (encode bytes) = some bytes := by
  induction bytes using encode.induct with
  | case1 a b c rest ih =>
      have ha := a.toNat_lt
      have hb := b.toNat_lt
      have hc := c.toNat_lt
      rw [encode]
      obtain ⟨n, hn⟩ : ∃ n, n = a.toNat * 65536 + b.toNat * 256 + c.toNat := ⟨_, rfl⟩
      rw [← hn, decode]
      have hx := digitValue_digit (n := n / 262144) (by omega)
      have hy := digitValue_digit (n := n / 4096 % 64) (by omega)
      have hz := digitValue_digit (n := n / 64 % 64) (by omega)
      have hw := digitValue_digit (n := n % 64) (by omega)
      have hz' := digit_ne_pad (n := n / 64 % 64) (by omega)
      have hw' := digit_ne_pad (n := n % 64) (by omega)
      have h1 : UInt8.ofNat (n / 262144 * 4 + n / 4096 % 64 / 16) = a := ofNat_byte (by omega)
      have h2 : UInt8.ofNat (n / 4096 % 64 * 16 + n / 64 % 64 / 4) = b := ofNat_byte (by omega)
      have h3 : UInt8.ofNat (n / 64 % 64 * 64 + n % 64) = c := ofNat_byte (by omega)
      simp only [hx, hy, hz, hw, hz', hw', ih, h1, h2, h3, if_false, Option.bind_eq_bind,
        Option.bind_some]
  | case2 a b =>
      have ha := a.toNat_lt
      have hb := b.toNat_lt
      rw [encode]
      obtain ⟨n, hn⟩ : ∃ n, n = a.toNat * 1024 + b.toNat * 4 := ⟨_, rfl⟩
      rw [← hn, decode]
      have hx := digitValue_digit (n := n / 4096) (by omega)
      have hy := digitValue_digit (n := n / 64 % 64) (by omega)
      have hz := digitValue_digit (n := n % 64) (by omega)
      have hz' := digit_ne_pad (n := n % 64) (by omega)
      have h1 : UInt8.ofNat (n / 4096 * 4 + n / 64 % 64 / 16) = a := ofNat_byte (by omega)
      have h2 : UInt8.ofNat (n / 64 % 64 * 16 + n % 64 / 4) = b := ofNat_byte (by omega)
      simp only [hx, hy, hz, hz', h1, h2, if_false, if_true, Option.bind_eq_bind,
        Option.bind_some]
  | case3 a =>
      have ha := a.toNat_lt
      rw [encode, decode]
      have hx := digitValue_digit (n := a.toNat / 4) (by omega)
      have hy := digitValue_digit (n := a.toNat * 16 % 64) (by omega)
      have h1 : UInt8.ofNat (a.toNat / 4 * 4 + a.toNat * 16 % 64 / 16) = a :=
        ofNat_byte (by omega)
      simp only [hx, hy, h1, and_self, if_true, Option.bind_eq_bind, Option.bind_some]
  | case4 => rfl

-- ================================================================ the text

/-- Printable ASCII, but for the quote and the backslash. -/
def Plain (c : UInt8) : Prop := c ≤ 126 ∧ 32 ≤ c ∧ c ≠ 34 ∧ c ≠ 92

theorem digit_plain {n : Nat} (h : n < 64) : Plain (digit n) := (digit_facts n h).2.2

theorem pad_plain : Plain pad := by
  unfold Plain
  decide

theorem encode_plain (bytes : List UInt8) : ∀ c ∈ encode bytes, Plain c := by
  induction bytes using encode.induct with
  | case1 a b c rest ih =>
      have ha := a.toNat_lt
      have hb := b.toNat_lt
      have hc := c.toNat_lt
      rw [encode]
      exact List.forall_mem_cons.mpr ⟨digit_plain (by omega), List.forall_mem_cons.mpr
        ⟨digit_plain (by omega), List.forall_mem_cons.mpr ⟨digit_plain (by omega),
          List.forall_mem_cons.mpr ⟨digit_plain (by omega), ih⟩⟩⟩⟩
  | case2 a b =>
      have ha := a.toNat_lt
      have hb := b.toNat_lt
      rw [encode]
      exact List.forall_mem_cons.mpr ⟨digit_plain (by omega), List.forall_mem_cons.mpr
        ⟨digit_plain (by omega), List.forall_mem_cons.mpr ⟨digit_plain (by omega),
          List.forall_mem_singleton.mpr pad_plain⟩⟩⟩
  | case3 a =>
      have ha := a.toNat_lt
      rw [encode]
      exact List.forall_mem_cons.mpr ⟨digit_plain (by omega), List.forall_mem_cons.mpr
        ⟨digit_plain (by omega), List.forall_mem_cons.mpr ⟨pad_plain,
          List.forall_mem_singleton.mpr pad_plain⟩⟩⟩
  | case4 => exact fun c hc => absurd hc List.not_mem_nil

theorem encode_length (bytes : List UInt8) :
    (encode bytes).length = (bytes.length + 2) / 3 * 4 := by
  induction bytes using encode.induct with
  | case1 a b c rest ih =>
      rw [encode]
      simp only [List.length_cons, ih]
      omega
  | case2 a b => simp [encode]
  | case3 a => simp [encode]
  | case4 => rfl

end Lib.Base64
