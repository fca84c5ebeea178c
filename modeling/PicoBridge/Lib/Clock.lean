/-
Clocks of 32 bits beside the time that they show.

# The two comparisons

A clock shows the time modulo 2^32. Code that keeps a reading and
subtracts it from a later one has the time between them as long as that
is less than the modulus (`elapsed`), whatever the two readings are; an
age is then compared with a bound (`young_iff`). Code that keeps a
reading of the future and looks at the sign of the difference knows on
which side of it the time is, as long as it is less than half the modulus
away (`due_iff`, `due_of_near`).

Both are exact in these windows and say nothing outside them, so what is
proved with them is proved of runs that come back to the clock often
enough.
-/
import Mathlib.Data.Nat.ModEq
import Mathlib.Tactic

namespace Lib.Clock

variable {s t : Nat}

/-- What the clock shows at a time. -/
def reading (t : Nat) : UInt32 := UInt32.ofNat t

@[simp] theorem reading_toNat (t : Nat) : (reading t).toNat = t % 2 ^ 32 := rfl

theorem reading_add (t : Nat) (d : UInt32) : reading t + d = reading (t + d.toNat) := by
  apply UInt32.toNat_inj.mp
  rw [UInt32.toNat_add]
  simp

/-- The difference of two readings, in less than a turn of the clock. -/
theorem elapsed (hle : s ≤ t) (hturn : t < s + 2 ^ 32) :
    (reading t - reading s).toNat = t - s := by
  rw [UInt32.toNat_sub, reading_toNat, reading_toNat]
  omega

/-- An age of less than a turn, against a bound. -/
theorem young_iff (hle : s ≤ t) (hturn : t < s + 2 ^ 32) (bound : UInt32) :
    reading t - reading s < bound ↔ t < s + bound.toNat := by
  rw [UInt32.lt_iff_toNat_lt, elapsed hle hturn]
  omega

/-- Two times of one reading in less than a turn are the same. -/
theorem reading_inj (hle : s ≤ t) (hturn : t < s + 2 ^ 32) (h : reading t = reading s) :
    t = s := by
  have hsame := elapsed hle hturn
  rw [h, UInt32.sub_self] at hsame
  have hzero : (0 : UInt32).toNat = 0 := rfl
  omega

/-- The sign of a difference. -/
theorem negative_iff (d : UInt32) : d.toInt32 < 0 ↔ 2 ^ 31 ≤ d.toNat := by
  rw [Int32.lt_iff_toInt_lt]
  show d.toBitVec.toInt < 0 ↔ _
  rw [BitVec.toInt_neg_iff]
  show 2 ^ 32 ≤ 2 * d.toNat ↔ _
  omega

/-- A reading that lies ahead, by less than half a turn, is not due. -/
theorem due_of_near (hlt : t < s) (hnear : s ≤ t + 2 ^ 31) :
    (reading t - reading s).toInt32 < 0 := by
  rw [negative_iff, UInt32.toNat_sub, reading_toNat, reading_toNat]
  omega

/-- A deadline in the signed comparison, within half a turn of it. -/
theorem due_iff (hahead : s ≤ t + 2 ^ 31) (hbehind : t < s + 2 ^ 31) :
    (reading t - reading s).toInt32 < 0 ↔ t < s := by
  constructor
  · intro hnegative
    by_contra hle
    rw [negative_iff, elapsed (by omega) (by omega)] at hnegative
    omega
  · exact fun hlt => due_of_near hlt hahead

end Lib.Clock
