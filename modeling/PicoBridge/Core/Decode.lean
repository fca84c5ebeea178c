/-
`decode_utf8` reads UTF-8: from an offset on it accepts exactly the
spellings of RFC 3629, and returns the code point that is spelled.

# The argument

What is read lies in the input (`decodeUtf8_window`), so the decoder may
be asked about the bytes from the offset on. There each lead byte opens
one line of the table, and a byte of the continuation loop is one digit
of the code point (`decodeContinuation_trail`).
-/
import PicoBridge.Lib.Utf8
import PicoBridge.Core.Steps

namespace PicoBridge

open String (utf8EncodeChar)
open Lib.Utf8 (Spells Trail spells_iff spells_encode)

-- ============================================================== the window

/-- The bytes of an input of a length. -/
def inputBytes (input : List UInt8) (length : Nat) : List UInt8 :=
  (List.range length).map fun i => input.getD i 0

@[simp] theorem inputBytes_length (input : List UInt8) (length : Nat) :
    (inputBytes input length).length = length := by
  rw [inputBytes, List.length_map, List.length_range]

theorem inputBytes_drop {input : List UInt8} {length offset i : Nat} (h : offset + i < length) :
    ((inputBytes input length).drop offset).getD i 0 = input.getD (offset + i) 0 := by
  simp [inputBytes, List.getD_eq_getElem?_getD, List.getElem?_drop, h]

/-- What the decoder returns, counted from an offset. -/
def shiftBy (offset : Nat) : Except BridgeStatus (Nat × Nat) → Except BridgeStatus (Nat × Nat)
  | .error st => .error st
  | .ok (cp, next) => .ok (cp, offset + next)

theorem decodeContinuation_window {input : List UInt8} {length offset : Nat} {n : Nat} :
    ∀ {k cp : Nat}, offset + k + n ≤ length →
      decodeContinuation input n (offset + k) cp
        = shiftBy offset (decodeContinuation ((inputBytes input length).drop offset) n k cp) := by
  induction n with
  | zero => exact fun _ => rfl
  | succ n ih =>
      intro k cp hle
      rw [decodeContinuation, decodeContinuation, inputBytes_drop (by omega)]
      split
      · rfl
      · rw [Nat.add_assoc]
        exact ih (by omega)

theorem decodeTail_window {input : List UInt8} {length offset k cp n m : Nat}
    (hle : offset + k ≤ length) :
    decodeTail input length (offset + k) cp n m
      = shiftBy offset (decodeTail ((inputBytes input length).drop offset) (length - offset) k
          cp n m) := by
  unfold decodeTail
  by_cases hshort : length - (offset + k) < n
  · rw [if_pos hshort, if_pos (by omega)]
    rfl
  · rw [if_neg hshort, if_neg (by omega),
      @decodeContinuation_window input length offset n k cp (by omega)]
    cases decodeContinuation ((inputBytes input length).drop offset) n k cp with
    | error st => rfl
    | ok r =>
        obtain ⟨cp, next⟩ := r
        dsimp only [shiftBy]
        split <;> rfl

/-- Decoding reads the bytes from the offset on. -/
theorem decodeUtf8_window {input : List UInt8} {length offset : Nat} (hlt : offset < length) :
    decodeUtf8 input length offset
      = shiftBy offset (decodeUtf8 ((inputBytes input length).drop offset) (length - offset) 0) := by
  have hlead : ((inputBytes input length).drop offset).getD 0 0 = input.getD offset 0 :=
    inputBytes_drop (by omega)
  have htail : ∀ cp n m, decodeTail input length (offset + 1) cp n m
      = shiftBy offset (decodeTail ((inputBytes input length).drop offset) (length - offset)
          (0 + 1) cp n m) := fun _ _ _ => decodeTail_window hlt
  unfold decodeUtf8
  rw [hlead]
  dsimp only
  rw [htail, htail, htail]
  generalize (input.getD offset 0).toNat = lead
  by_cases hone : lead < 0x80
  · rw [if_pos hone, if_pos hone]
    rfl
  rw [if_neg hone, if_neg hone]
  by_cases htwo : 0xc2 ≤ lead ∧ lead ≤ 0xdf
  · rw [if_pos htwo, if_pos htwo]
  rw [if_neg htwo, if_neg htwo]
  by_cases hthree : 0xe0 ≤ lead ∧ lead ≤ 0xef
  · rw [if_pos hthree, if_pos hthree]
  rw [if_neg hthree, if_neg hthree]
  by_cases hfour : 0xf0 ≤ lead ∧ lead ≤ 0xf4
  · rw [if_pos hfour, if_pos hfour]
  · rw [if_neg hfour, if_neg hfour]
    rfl

-- =============================================================== the bytes

theorem trail_iff (b : UInt8) : b.toNat &&& 0xc0 = 0x80 ↔ Trail b := by
  have hall : ∀ n < 256, n &&& 0xc0 = 0x80 ↔ 0x80 ≤ n ∧ n ≤ 0xbf := by decide +kernel
  exact hall b.toNat b.toNat_lt

/-- A continuation byte is one more digit. -/
theorem digit_eq {b : UInt8} (h : Trail b) (cp : Nat) :
    (cp <<< 6) ||| (b.toNat &&& 0x3f) = cp * 64 + (b.toNat - 0x80) := by
  unfold Trail at h
  have hmask : b.toNat &&& 0x3f = b.toNat % 64 := Nat.and_two_pow_sub_one_eq_mod b.toNat 6
  have hlt : b.toNat % 64 < 2 ^ 6 := Nat.mod_lt _ (by decide)
  rw [hmask, ← Nat.shiftLeft_add_eq_or_of_lt hlt, Nat.shiftLeft_eq]
  omega

theorem decodeContinuation_zero {input : List UInt8} {k cp v next : Nat} :
    decodeContinuation input 0 k cp = .ok (v, next) ↔ cp = v ∧ k = next := by
  simp [decodeContinuation]

theorem decodeContinuation_succ {input : List UInt8} {n k cp v next : Nat} :
    decodeContinuation input (n + 1) k cp = .ok (v, next) ↔
      Trail (input.getD k 0) ∧
        decodeContinuation input n (k + 1) (cp * 64 + ((input.getD k 0).toNat - 0x80))
          = .ok (v, next) := by
  rw [decodeContinuation]
  by_cases h : Trail (input.getD k 0)
  · rw [if_neg (not_not_intro ((trail_iff _).mpr h)), digit_eq h]
    exact (and_iff_right h).symm
  · rw [if_pos (mt (trail_iff _).mp h)]
    exact iff_of_false (fun hok => by cases hok) fun hok => h hok.1

theorem decodeTail_ok {input : List UInt8} {length k cp n m v next : Nat} :
    decodeTail input length k cp n m = .ok (v, next) ↔
      n ≤ length - k ∧ decodeContinuation input n k cp = .ok (v, next) ∧ m ≤ v ∧ v ≤ 0x10ffff ∧
        ¬(0xd800 ≤ v ∧ v ≤ 0xdfff) := by
  unfold decodeTail
  by_cases hshort : length - k < n
  · rw [if_pos hshort]
    exact iff_of_false (fun hok => by cases hok) fun hok => by omega
  rw [if_neg hshort]
  cases decodeContinuation input n k cp with
  | error st => exact iff_of_false (fun hok => by cases hok) fun hok => by cases hok.2.1
  | ok r =>
      obtain ⟨cp', k'⟩ := r
      dsimp only
      split
      next hbad =>
        refine iff_of_false (fun hok => by cases hok) ?_
        rintro ⟨-, hok, hrange⟩
        cases hok
        omega
      next hgood =>
        constructor
        · intro hok
          cases hok
          exact ⟨by omega, rfl, by omega⟩
        · exact fun hok => hok.2.1

/-- The value bits of a lead byte. -/
theorem lead_bits {lead : Nat} (h : lead < 256) :
    (0xc0 ≤ lead ∧ lead ≤ 0xdf → lead &&& 0x1f = lead - 0xc0) ∧
    (0xe0 ≤ lead ∧ lead ≤ 0xef → lead &&& 0x0f = lead - 0xe0) ∧
    (0xf0 ≤ lead ∧ lead ≤ 0xf7 → lead &&& 0x07 = lead - 0xf0) := by
  rw [show 0x1f = 2 ^ 5 - 1 from rfl, show 0x0f = 2 ^ 4 - 1 from rfl,
    show 0x07 = 2 ^ 3 - 1 from rfl, Nat.and_two_pow_sub_one_eq_mod,
    Nat.and_two_pow_sub_one_eq_mod, Nat.and_two_pow_sub_one_eq_mod]
  omega

-- ============================================================= the decoder

/-- What is at the head of the bytes is decoded where it spells a code
point. -/
theorem decode_head {xs : List UInt8} (hne : xs ≠ []) {v n : Nat} :
    decodeUtf8 xs xs.length 0 = .ok (v, n) ↔
      ∃ w rest, Spells v w ∧ xs = w ++ rest ∧ n = w.length := by
  obtain ⟨a, t, rfl⟩ := List.exists_cons_of_ne_nil hne
  obtain ⟨hbits₂, hbits₃, hbits₄⟩ := lead_bits a.toNat_lt
  have hhead : (a :: t).getD 0 0 = a := rfl
  unfold decodeUtf8
  rw [hhead]
  dsimp only
  constructor
  · intro h
    split at h
    next hone =>
      cases h
      exact ⟨[a], t, ⟨hone, rfl⟩, rfl, rfl⟩
    split at h
    next htwo =>
      rw [hbits₂ (by omega)] at h
      simp only [decodeTail_ok, decodeContinuation_succ, decodeContinuation_zero] at h
      obtain ⟨hlen, ⟨hb, hv, hn⟩, hrange⟩ := h
      rcases t with _ | ⟨b, t⟩
      · exact absurd hlen (by simp)
      · exact ⟨[a, b], t, ⟨htwo, hb, hv.symm⟩, rfl, hn.symm⟩
    split at h
    next hthree =>
      rw [hbits₃ (by omega)] at h
      simp only [decodeTail_ok, decodeContinuation_succ, decodeContinuation_zero] at h
      obtain ⟨hlen, ⟨hb, hc, hv, hn⟩, hmin, -, hno⟩ := h
      rcases t with _ | ⟨b, _ | ⟨c, t⟩⟩
      · exact absurd hlen (by simp)
      · exact absurd hlen (by simp)
      · exact ⟨[a, b, c], t, ⟨hthree, hb, hc, hv.symm, hmin, hno⟩, rfl, hn.symm⟩
    split at h
    next hfour =>
      rw [hbits₄ (by omega)] at h
      simp only [decodeTail_ok, decodeContinuation_succ, decodeContinuation_zero] at h
      obtain ⟨hlen, ⟨hb, hc, hd, hv, hn⟩, hmin, hmax, -⟩ := h
      rcases t with _ | ⟨b, _ | ⟨c, _ | ⟨d, t⟩⟩⟩
      · exact absurd hlen (by simp)
      · exact absurd hlen (by simp)
      · exact absurd hlen (by simp)
      · exact ⟨[a, b, c, d], t, ⟨hfour, hb, hc, hd, hv.symm, hmin, hmax⟩, rfl, hn.symm⟩
    next => cases h
  · rintro ⟨w, rest, hspells, hxs, rfl⟩
    match w, hspells with
    | [a'], hspells =>
        obtain ⟨rfl, rfl⟩ := List.cons.inj hxs
        obtain ⟨ha, rfl⟩ := hspells
        rw [if_pos ha]
        rfl
    | [a', b], hspells =>
        obtain ⟨rfl, rfl⟩ := List.cons.inj hxs
        obtain ⟨ha, hb, hv⟩ := hspells
        have hlen : 1 ≤ (a :: ([b] ++ rest)).length - (0 + 1) := Nat.le_add_left 1 rest.length
        unfold Trail at hb
        rw [if_neg (by omega), if_pos ha, hbits₂ (by omega)]
        simp only [decodeTail_ok, decodeContinuation_succ, decodeContinuation_zero]
        exact ⟨hlen, ⟨hb, hv.symm, rfl⟩, by omega⟩
    | [a', b, c], hspells =>
        obtain ⟨rfl, rfl⟩ := List.cons.inj hxs
        obtain ⟨ha, hb, hc, hv, hmin, hno⟩ := hspells
        have hlen : 2 ≤ (a :: ([b, c] ++ rest)).length - (0 + 1) := Nat.le_add_left 2 rest.length
        unfold Trail at hb hc
        rw [if_neg (by omega), if_neg (by omega), if_pos ha, hbits₃ (by omega)]
        simp only [decodeTail_ok, decodeContinuation_succ, decodeContinuation_zero]
        exact ⟨hlen, ⟨hb, hc, hv.symm, rfl⟩, hmin, by omega, hno⟩
    | [a', b, c, d], hspells =>
        obtain ⟨rfl, rfl⟩ := List.cons.inj hxs
        obtain ⟨ha, hb, hc, hd, hv, hmin, hmax⟩ := hspells
        have hlen : 3 ≤ (a :: ([b, c, d] ++ rest)).length - (0 + 1) :=
          Nat.le_add_left 3 rest.length
        rw [if_neg (by omega), if_neg (by omega), if_neg (by omega), if_pos ha, hbits₄ (by omega)]
        simp only [decodeTail_ok, decodeContinuation_succ, decodeContinuation_zero]
        exact ⟨hlen, ⟨hb, hc, hd, hv.symm, rfl⟩, hmin, hmax, by omega⟩

/-- What is decoded at an offset is the character that is encoded there. -/
theorem decodeUtf8_iff {input : List UInt8} {length offset : Nat} (hlt : offset < length)
    {v next : Nat} :
    decodeUtf8 input length offset = .ok (v, next) ↔
      ∃ (c : Char) (rest : List UInt8), c.toNat = v ∧
        (inputBytes input length).drop offset = utf8EncodeChar c ++ rest ∧
        next = offset + (utf8EncodeChar c).length := by
  obtain ⟨xs, hxs⟩ : ∃ xs, (inputBytes input length).drop offset = xs := ⟨_, rfl⟩
  have hlen : xs.length = length - offset := by
    rw [← hxs, List.length_drop, inputBytes_length]
  have hne : xs ≠ [] := List.length_pos_iff.mp (by omega)
  rw [decodeUtf8_window hlt, hxs, ← hlen]
  constructor
  · intro h
    cases hdecode : decodeUtf8 xs xs.length 0 with
    | error st =>
        rw [hdecode] at h
        cases h
    | ok r =>
        obtain ⟨v', n⟩ := r
        rw [hdecode] at h
        cases h
        obtain ⟨w, rest, hspells, hw, rfl⟩ := (decode_head hne).mp hdecode
        obtain ⟨c, hc, rfl⟩ := spells_iff.mp hspells
        exact ⟨c, rest, hc, hw, rfl⟩
  · rintro ⟨c, rest, rfl, hw, rfl⟩
    have hdecode := (decode_head hne).mpr ⟨_, rest, spells_encode c, hw, rfl⟩
    rw [hdecode]
    rfl

end PicoBridge
