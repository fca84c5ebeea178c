/-
Typing is unambiguous: what is typed tells the text.

# The argument

No two characters of a layout share a key (`mapAscii_inj`, `mapDe_inj`,
over the finite tables), and none of them is on Enter or Tab. So the first
stroke of a character tells which one it is, whatever follows: the strokes
of the typable characters are read from left to right (`typed_code`), and
a literal space is never taken for the one behind a dead key. UTF-8 is
read so too, so equal strokes are equal texts, and those are equal bytes.
-/
import PicoBridge.Core.Typing

namespace PicoBridge

open String (utf8EncodeChar)
open Lib (PrefixCode)
open Lib.Utf8 (encode encode_cons encode_inj spells_encode)

-- =============================================================== the tables

/-- The code points that a layout's map may have. -/
def codePoints : List Nat := List.range 127 ++ deUnicode.map Prod.fst

/-- Those that it has. -/
def mapped (map : Nat → Except BridgeStatus BridgeStroke) : List Nat :=
  codePoints.filter fun cp => (map cp).toOption.isSome

theorem mem_mapped {map : Nat → Except BridgeStatus BridgeStroke} {cp : Nat}
    {stroke : BridgeStroke} (hcp : cp ∈ codePoints) (h : map cp = .ok stroke) :
    cp ∈ mapped map := by
  refine List.mem_filter.mpr ⟨hcp, ?_⟩
  rw [h]
  rfl

theorem lt_codePoints {cp : Nat} (h : cp < 127) : cp ∈ codePoints :=
  List.mem_append_left _ (List.mem_range.mpr h)

theorem mapSymbol_lt {cp : Nat} {keys : List (Nat × Nat × UInt8)} {stroke : BridgeStroke}
    (hkeys : ∀ k ∈ keys, k.1 < 127 ∧ k.2.1 < 127) (h : mapSymbol cp keys = .ok stroke) :
    cp < 127 := by
  induction keys with
  | nil => cases h
  | cons k keys ih =>
      obtain ⟨p, s, usage⟩ := k
      have hk : p < 127 ∧ s < 127 := hkeys (p, s, usage) List.mem_cons_self
      unfold mapSymbol at h
      split at h
      next hcp => omega
      next => exact ih (fun k hk => hkeys k (List.mem_cons_of_mem _ hk)) h

theorem mapAscii_lt {cp : Nat} {stroke : BridgeStroke} (h : mapAscii cp = .ok stroke) :
    cp < 127 := by
  have hletters : 'z'.toNat = 122 ∧ 'Z'.toNat = 90 ∧ ' '.toNat = 32 := by decide
  unfold mapAscii at h
  split at h
  next => omega
  split at h
  next => omega
  split at h
  next => omega
  next => exact mapSymbol_lt (by decide) h

theorem lookup_mem {table : List (Nat × BridgeStroke)} {cp : Nat} {stroke : BridgeStroke}
    (h : table.lookup cp = some stroke) : cp ∈ table.map Prod.fst := by
  obtain ⟨l, r, rfl, -⟩ := List.lookup_eq_some_iff.mp h
  exact List.mem_map_of_mem (f := Prod.fst)
    (List.mem_append_right l (List.mem_cons_self (a := (cp, stroke))))

theorem mapDe_mem {cp : Nat} {stroke : BridgeStroke} (h : mapDe cp = .ok stroke) :
    cp ∈ codePoints := by
  have hsymbols : ∀ cp ∈ deSymbols.map Prod.fst, cp < 127 := by decide
  unfold mapDe at h
  split at h
  next hlookup => exact lt_codePoints (hsymbols cp (lookup_mem hlookup))
  split at h
  next hlookup => exact List.mem_append_right _ (lookup_mem hlookup)
  next =>
    have hletters : 'y'.toNat = 121 ∧ 'Y'.toNat = 89 ∧ 'z'.toNat = 122 ∧ 'Z'.toNat = 90 := by
      decide
    have hlt := mapAscii_lt h
    refine lt_codePoints ?_
    split_ifs at hlt <;> omega

theorem mapAscii_nodup : ((mapped mapAscii).map fun cp => (mapAscii cp).toOption).Nodup := by
  decide +kernel

theorem mapDe_nodup : ((mapped mapDe).map fun cp => (mapDe cp).toOption).Nodup := by
  decide +kernel

/-- No two characters of a layout share a key. -/
theorem layoutKey_inj {layout : UInt32} {c d : Char} {stroke : BridgeStroke}
    (hc : layoutKey layout c = some stroke) (hd : layoutKey layout d = some stroke) : c = d := by
  have hok : ∀ {r : Except BridgeStatus BridgeStroke}, r.toOption = some stroke →
      r = .ok stroke := by
    intro r hr
    cases r with
    | error st => cases hr
    | ok s => rw [Option.some.inj hr]
  unfold layoutKey at hc hd
  by_cases hlayout : layout = bridgeLayoutDe
  · rw [if_pos hlayout] at hc hd
    exact char_eq (List.inj_on_of_nodup_map mapDe_nodup
      (mem_mapped (mapDe_mem (hok hc)) (hok hc)) (mem_mapped (mapDe_mem (hok hd)) (hok hd))
      (hc.trans hd.symm))
  · rw [if_neg hlayout] at hc hd
    exact char_eq (List.inj_on_of_nodup_map mapAscii_nodup
      (mem_mapped (lt_codePoints (mapAscii_lt (hok hc))) (hok hc))
      (mem_mapped (lt_codePoints (mapAscii_lt (hok hd))) (hok hd)) (hc.trans hd.symm))

-- ============================================================== the strokes

theorem layoutKey_printing {layout : UInt32} {c : Char} {stroke : BridgeStroke}
    (h : layoutKey layout c = some stroke) : stroke.printing := by
  rcases hmap : (if layout = bridgeLayoutDe then mapDe c.toNat else mapAscii c.toNat) with st | s
  · unfold layoutKey at h
    rw [hmap] at h
    cases h
  · unfold layoutKey at h
    rw [hmap] at h
    rw [← Option.some.inj h]
    split at hmap
    · exact mapDe_printing hmap
    · exact mapAscii_printing hmap

/-- The first stroke of a character. -/
def firstKey (layout : UInt32) (c : Char) : Option BridgeStroke :=
  if c = '\n' then some ⟨0, 0x28⟩ else if c = '\t' then some ⟨0, 0x2b⟩ else layoutKey layout c

theorem typed_head (layout : UInt32) (c : Char) : (typed layout c).head? = firstKey layout c := by
  unfold typed firstKey
  split
  · rfl
  split
  · rfl
  · cases layoutKey layout c with
    | none => rfl
    | some stroke =>
        dsimp only
        split <;> rfl

/-- Enter, Tab and the keys of the map are different keys. -/
theorem firstKey_inj {layout : UInt32} {c d : Char} {stroke : BridgeStroke}
    (hc : firstKey layout c = some stroke) (hd : firstKey layout d = some stroke) : c = d := by
  have henter : ∀ {c}, layoutKey layout c ≠ some ⟨0, 0x28⟩ := fun h =>
    (layoutKey_printing h).2.1 rfl
  have htab : ∀ {c}, layoutKey layout c ≠ some ⟨0, 0x2b⟩ := fun h =>
    (layoutKey_printing h).2.2 rfl
  unfold firstKey at hc hd
  split_ifs at hc hd with hc₁ hd₁ hd₂ hc₂ hd₁ hd₂ hd₁ hd₂
  · exact hc₁.trans hd₁.symm
  · exact absurd (hc.trans hd.symm) (by decide)
  · exact absurd (hd.trans hc.symm) henter
  · exact absurd (hc.trans hd.symm) (by decide)
  · exact hc₂.trans hd₂.symm
  · exact absurd (hd.trans hc.symm) htab
  · exact absurd (hc.trans hd.symm) henter
  · exact absurd (hc.trans hd.symm) htab
  · exact layoutKey_inj hc hd

/-- What is typed is read from left to right. -/
theorem typed_code (layout mode : UInt32) (flags : UInt8) :
    PrefixCode (Typable layout mode flags) (typed layout) := by
  have hkey : ∀ {c : Char}, Typable layout mode flags c → ∃ stroke,
      firstKey layout c = some stroke := by
    intro c h
    unfold Typable at h
    unfold firstKey
    split_ifs at h with hcontrol
    · rcases h with ⟨rfl, -⟩ | ⟨rfl, -⟩
      · exact ⟨_, rfl⟩
      · exact ⟨_, rfl⟩
    · split_ifs
      · exact ⟨_, rfl⟩
      · exact ⟨_, rfl⟩
      · exact Option.isSome_iff_exists.mp h
  have hhead : ∀ {c : Char} {stroke : BridgeStroke} (r : List BridgeStroke),
      firstKey layout c = some stroke → (typed layout c ++ r).head? = some stroke := by
    intro c stroke r h
    rw [List.head?_append, typed_head, h]
    rfl
  constructor
  · intro c hc hnil
    obtain ⟨stroke, hstroke⟩ := hkey hc
    have hfirst := typed_head layout c
    rw [hnil, hstroke] at hfirst
    cases hfirst
  · intro c d r s hc hd heq
    obtain ⟨stroke, hstroke⟩ := hkey hc
    obtain ⟨stroke', hstroke'⟩ := hkey hd
    have hsame := hhead r hstroke
    rw [heq, hhead s hstroke'] at hsame
    exact firstKey_inj hstroke (hstroke'.trans hsame)

-- ================================================================ the bytes

variable {layout mode : UInt32} {flags : UInt8}

/-- Only the carriage return has its byte. -/
theorem ne_cr_of_mem {c : Char} (h : c ≠ '\r') : ∀ b ∈ utf8EncodeChar c, b ≠ 13 := by
  rintro b hb rfl
  exact h (char_eq ((spells_encode c).ascii hb (by decide)))

theorem newlines_append {α : Type} [DecidableEq α] {cr lf : α} (rest : List α) :
    ∀ {w : List α}, (∀ a ∈ w, a ≠ cr) → newlines cr lf (w ++ rest) = w ++ newlines cr lf rest
  | [], _ => rfl
  | a :: w, h => by
      rw [List.cons_append, newlines_cons (h a List.mem_cons_self),
        newlines_append rest fun b hb => h b (List.mem_cons_of_mem _ hb), List.cons_append]

/-- Replacing CRLF in the bytes is replacing it in the text. -/
theorem newlines_encode {cs : List Char} (h : Readable layout mode flags cs) :
    newlines 13 10 (encode cs) = encode (newlineText cs) := by
  induction h with
  | nil => rfl
  | char hc _ ih =>
      rw [encode_cons, newlines_append _ (ne_cr_of_mem hc.ne_cr), ih, newlineText_cons hc.ne_cr,
        encode_cons]
  | @crlf tail hlf _ ih =>
      rw [newlineText_crlf]
      show newlines 13 10 (13 :: 10 :: encode tail) = 10 :: encode (newlineText tail)
      rw [newlines_crlf, ih]

/-- Two texts that are accepted for the same layout, mode and flags are
typed alike only where they are the same, but for CRLF and LF. -/
theorem typing_unambiguous {core₁ core₂ : BridgeCore} {owner₁ id₁ owner₂ id₂ : UInt32}
    {input₁ input₂ : List UInt8} {length₁ length₂ : Nat} {nowMs₁ ttlMs₁ nowMs₂ ttlMs₂ : UInt32}
    (h₁ : (bridgeCoreStage core₁ owner₁ id₁ layout mode flags (some input₁) length₁ nowMs₁
      ttlMs₁).1 = .ok)
    (h₂ : (bridgeCoreStage core₂ owner₂ id₂ layout mode flags (some input₂) length₂ nowMs₂
      ttlMs₂).1 = .ok) :
    (bridgeCoreStage core₁ owner₁ id₁ layout mode flags (some input₁) length₁ nowMs₁
        ttlMs₁).2.strokeList
      = (bridgeCoreStage core₂ owner₂ id₂ layout mode flags (some input₂) length₂ nowMs₂
        ttlMs₂).2.strokeList ↔
    newlines 13 10 (inputBytes input₁ length₁) = newlines 13 10 (inputBytes input₂ length₂) := by
  obtain ⟨cs, hbytes₁, hcs, hlist₁⟩ := stage_accepted h₁
  obtain ⟨ds, hbytes₂, hds, hlist₂⟩ := stage_accepted h₂
  rw [hlist₁, hlist₂, hbytes₁, hbytes₂, newlines_encode hcs.readable,
    newlines_encode hds.readable]
  constructor
  · intro h
    rw [(typed_code layout mode flags).flatMap_inj hcs hds h]
  · intro h
    rw [encode_inj h]

/-- A circumflex, whose key is dead, and a space behind it that is typed
too: the circumflex alone is typed otherwise. -/
theorem typing_unambiguous_bench :
    (bridgeCoreStage bridgeCoreInit 7 9 bridgeLayoutDe bridgeModePassword 0 (some [0x5e, 0x20]) 2
        0 1000).2.strokeList
      ≠ (bridgeCoreStage bridgeCoreInit 7 9 bridgeLayoutDe bridgeModePassword 0 (some [0x5e]) 1
        0 1000).2.strokeList := by
  have hadm : ∀ length, 1 ≤ length ∧ length ≤ bridgeMaxInputBytes →
      Admissible bridgeCoreInit 7 9 bridgeLayoutDe bridgeModePassword 0 length 1000 :=
    fun length hlength => ⟨hlength, by decide, by decide, by decide, by decide, by decide,
      by decide, fun _ => rfl, by decide, by decide⟩
  have hspace : inputBytes [0x5e, 0x20] 2 = encode ['^', ' '] := by decide
  have halone : inputBytes [0x5e] 1 = encode ['^'] := by decide
  intro h
  have hbytes := (typing_unambiguous
    (stage_text (by decide) (hadm 2 (by decide)) 0 hspace (by decide)).1
    (stage_text (by decide) (hadm 1 (by decide)) 0 halone (by decide)).1).mp h
  exact absurd hbytes (by decide)

end PicoBridge
