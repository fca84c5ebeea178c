/-
What a stage means: which texts it accepts, what it types for them, and
what is wrong with the ones that it refuses.

# The meaning

A text is a list of characters, of which `newlines` replaces each CRLF by
LF. `Typable` is what a layout, a mode and the flags allow of the
characters then, and `typed` what is typed for one. Bytes that are not
such a text have a first offence (`FirstOffence`): behind a text that is
typable there is no character, or one that is not typable.

# The argument

The stage loop types a typable text character by character, wherever it
begins (`stageLoop_text`), and stops at an offence (`stageLoop_offends`).
Every byte string is a typable text followed by nothing or by an offence
(`text_then_offence`), so the loop does nothing else.
-/
import PicoBridge.Core.Decode
import PicoBridge.Core.Strokes

namespace PicoBridge

open String (utf8EncodeChar)
open Lib.Utf8 (encode encode_cons encode_inj utf8_code)

-- =============================================================== the meaning

/-- A list with each `cr` before an `lf` left out. -/
def newlines {α : Type} [DecidableEq α] (cr lf : α) : List α → List α
  | [] => []
  | [a] => [a]
  | a :: b :: rest =>
      if a = cr ∧ b = lf then lf :: newlines cr lf rest else a :: newlines cr lf (b :: rest)

/-- A text with each CRLF replaced by LF. -/
def newlineText (cs : List Char) : List Char := newlines '\r' '\n' cs

def IsControl (c : Char) : Prop := c.toNat < 32 ∨ c.toNat = 127

instance : DecidablePred IsControl := fun _ => inferInstanceAs (Decidable (_ ∨ _))

/-- Line feeds are typed in TEXT mode with the flag for them. -/
def LfAllowed (mode : UInt32) (flags : UInt8) : Prop :=
  mode = bridgeModeText ∧ flags &&& bridgeFlagAllowLf ≠ 0

def TabAllowed (mode : UInt32) (flags : UInt8) : Prop :=
  mode = bridgeModeText ∧ flags &&& bridgeFlagAllowTab ≠ 0

instance (mode : UInt32) (flags : UInt8) : Decidable (LfAllowed mode flags) :=
  inferInstanceAs (Decidable (_ ∧ _))

instance (mode : UInt32) (flags : UInt8) : Decidable (TabAllowed mode flags) :=
  inferInstanceAs (Decidable (_ ∧ _))

/-- The stroke of a character in a layout's map, if it is there. -/
def layoutKey (layout : UInt32) (c : Char) : Option BridgeStroke :=
  (if layout = bridgeLayoutDe then mapDe c.toNat else mapAscii c.toNat).toOption

/-- A character that is typed. -/
def Typable (layout mode : UInt32) (flags : UInt8) (c : Char) : Prop :=
  if IsControl c then c = '\n' ∧ LfAllowed mode flags ∨ c = '\t' ∧ TabAllowed mode flags
  else (layoutKey layout c).isSome

instance (layout mode : UInt32) (flags : UInt8) : DecidablePred (Typable layout mode flags) :=
  fun _ => inferInstanceAs (Decidable (ite _ _ _))

/-- The circumflex, the tilde, the grave and the acute accent. -/
def deDeadKeys : List Char := ['^', '~', Char.ofNat 0x60, Char.ofNat 0xb4]

/-- What is typed for a character. -/
def typed (layout : UInt32) (c : Char) : List BridgeStroke :=
  if c = '\n' then [⟨0, 0x28⟩]
  else if c = '\t' then [⟨0, 0x2b⟩]
  else
    match layoutKey layout c with
    | none => []
    | some stroke =>
        if layout = bridgeLayoutDe ∧ c ∈ deDeadKeys then [stroke, ⟨0, 44⟩] else [stroke]

/-- What is wrong with bytes, at their head. -/
inductive Offends (layout mode : UInt32) (flags : UInt8) : List UInt8 → BridgeStatus → Prop
  | malformed {rest : List UInt8} (hne : rest ≠ [])
      (hnone : ∀ (c : Char) (tail : List UInt8), rest ≠ utf8EncodeChar c ++ tail) :
      Offends layout mode flags rest .errUtf8
  | control {c : Char} {tail : List UInt8} (hcontrol : IsControl c)
      (hnot : ¬Typable layout mode flags c)
      (halone : ¬(c = '\r' ∧ LfAllowed mode flags ∧ tail.head? = some 10)) :
      Offends layout mode flags (utf8EncodeChar c ++ tail) .errPolicy
  | unmapped {c : Char} {tail : List UInt8} (hcontrol : ¬IsControl c)
      (hnot : layoutKey layout c = none) :
      Offends layout mode flags (utf8EncodeChar c ++ tail) .errUnsupported

/-- A text every character of which is typed. -/
def TypableText (layout mode : UInt32) (flags : UInt8) (cs : List Char) : Prop :=
  ∀ c ∈ newlineText cs, Typable layout mode flags c

instance (layout mode : UInt32) (flags : UInt8) : DecidablePred (TypableText layout mode flags) :=
  fun cs => List.decidableBAll _ (newlineText cs)

/-- Bytes that begin with a typable text, and what is wrong behind it. -/
def FirstOffence (layout mode : UInt32) (flags : UInt8) (bytes : List UInt8)
    (st : BridgeStatus) : Prop :=
  ∃ cs rest, bytes = encode cs ++ rest ∧ TypableText layout mode flags cs ∧
    Offends layout mode flags rest st

/-- The checks of a stage before it reads the text. A ledger has room for
`BRIDGE_REPLAY_CAPACITY` entries. -/
structure Admissible (core : BridgeCore) (owner id layout mode : UInt32) (flags : UInt8)
    (length : Nat) (ttlMs : UInt32) : Prop where
  lengthIn : 1 ≤ length ∧ length ≤ bridgeMaxInputBytes
  ownerSet : owner ≠ 0
  idSet : id ≠ 0
  layoutDefined : layout = bridgeLayoutUs ∨ layout = bridgeLayoutDe
  modeDefined : mode = bridgeModePassword ∨ mode = bridgeModeText
  ttlIn : 1 ≤ ttlMs ∧ ttlMs ≤ bridgeMaxTtlMs
  flagsDefined : flags &&& ~~~(bridgeFlagAllowLf ||| bridgeFlagAllowTab) = 0
  password : mode = bridgeModePassword → flags = 0
  fresh : (owner, id) ∉ core.replay
  room : core.replay.length ≠ bridgeReplayCapacity

-- ============================================================ one character

variable {layout mode : UInt32} {flags : UInt8}

theorem char_eq {c d : Char} (h : c.toNat = d.toNat) : c = d :=
  Char.ext (UInt32.toNat_inj.mp h)

theorem isDeDead_iff (c : Char) : isDeDead c.toNat = true ↔ c ∈ deDeadKeys := by
  have hvalues : deDeadKeys.map Char.toNat = [0x5e, 0x7e, 0x60, 0xb4] := by decide
  have hmem : c ∈ deDeadKeys ↔ c.toNat ∈ deDeadKeys.map Char.toNat := by
    constructor
    · exact fun h => List.mem_map_of_mem h
    · intro h
      obtain ⟨d, hd, heq⟩ := List.mem_map.mp h
      rwa [← char_eq heq]
  rw [hmem, hvalues]
  simp [isDeDead]
  tauto

/-- A carriage return is not typed by itself. -/
theorem cr_not_typable : ¬Typable layout mode flags '\r' := by
  unfold Typable
  rw [if_pos (by decide)]
  rintro (⟨h, -⟩ | ⟨h, -⟩)
  · exact absurd h (by decide)
  · exact absurd h (by decide)

/-- A character of the loop is typed where it is typable. -/
theorem stageChar_typed {c : Char} (h : Typable layout mode flags c) :
    stageChar layout mode flags c.toNat = .ok (typed layout c) := by
  unfold Typable at h
  unfold stageChar typed
  by_cases hcontrol : IsControl c
  · have hcp : c.toNat < 32 ∨ c.toNat = 127 := hcontrol
    rw [if_pos hcontrol] at h
    rw [if_pos hcp]
    rcases h with ⟨rfl, hmode, hflag⟩ | ⟨rfl, hmode, hflag⟩
    · rw [if_pos ⟨hmode, .inl ⟨rfl, hflag⟩⟩]
      rfl
    · rw [if_pos ⟨hmode, .inr ⟨rfl, hflag⟩⟩]
      rfl
  · have hcp : ¬(c.toNat < 32 ∨ c.toNat = 127) := hcontrol
    rw [if_neg hcontrol] at h
    have hlf : c ≠ '\n' := fun h => hcontrol (h ▸ by decide)
    have htab : c ≠ '\t' := fun h => hcontrol (h ▸ by decide)
    rw [if_neg hcp, if_neg hlf, if_neg htab]
    unfold layoutKey at h ⊢
    generalize (if layout = bridgeLayoutDe then mapDe c.toNat else mapAscii c.toNat) = key at h ⊢
    cases key with
    | error st => cases h
    | ok stroke =>
        dsimp only [Except.toOption]
        by_cases hdead : layout = bridgeLayoutDe ∧ c ∈ deDeadKeys
        · rw [if_pos hdead, if_pos ⟨hdead.1, (isDeDead_iff c).mpr hdead.2⟩]
        · rw [if_neg hdead, if_neg fun h => hdead ⟨h.1, (isDeDead_iff c).mp h.2⟩]

/-- The control characters that are not typed. -/
theorem stageChar_control {c : Char} (hcontrol : IsControl c)
    (h : ¬Typable layout mode flags c) :
    stageChar layout mode flags c.toNat = .error .errPolicy := by
  unfold Typable at h
  rw [if_pos hcontrol] at h
  have hcp : c.toNat < 32 ∨ c.toNat = 127 := hcontrol
  unfold stageChar
  rw [if_pos hcp, if_neg]
  rintro ⟨hmode, ⟨hlf, hflag⟩ | ⟨htab, hflag⟩⟩
  · exact h (.inl ⟨char_eq hlf, hmode, hflag⟩)
  · exact h (.inr ⟨char_eq htab, hmode, hflag⟩)

/-- The other characters that are not in the map. -/
theorem stageChar_unmapped {c : Char} (hcontrol : ¬IsControl c) (h : layoutKey layout c = none) :
    stageChar layout mode flags c.toNat = .error .errUnsupported := by
  unfold layoutKey at h
  have hcp : ¬(c.toNat < 32 ∨ c.toNat = 127) := hcontrol
  unfold stageChar
  rw [if_neg hcp]
  cases hmap : (if layout = bridgeLayoutDe then mapDe c.toNat else mapAscii c.toNat) with
  | error st =>
      have hst : st = .errUnsupported := by
        split at hmap
        · exact mapDe_error hmap
        · exact mapAscii_error hmap
      rw [hst]
  | ok stroke =>
      rw [hmap] at h
      cases h

/-- What is typed is in the map, and never needs a carriage return. -/
theorem Typable.ne_cr {c : Char} (h : Typable layout mode flags c) : c ≠ '\r' := by
  rintro rfl
  exact cr_not_typable h

-- ================================================================= newlines

theorem newlines_cons {α : Type} [DecidableEq α] {cr lf a : α} (h : a ≠ cr) (rest : List α) :
    newlines cr lf (a :: rest) = a :: newlines cr lf rest := by
  cases rest with
  | nil => rfl
  | cons b rest => exact if_neg fun hcrlf => h hcrlf.1

theorem newlines_crlf {α : Type} [DecidableEq α] (cr lf : α) (rest : List α) :
    newlines cr lf (cr :: lf :: rest) = lf :: newlines cr lf rest := if_pos ⟨rfl, rfl⟩

theorem newlineText_cons {c : Char} (h : c ≠ '\r') (cs : List Char) :
    newlineText (c :: cs) = c :: newlineText cs := newlines_cons h cs

theorem newlineText_crlf (cs : List Char) :
    newlineText ('\r' :: '\n' :: cs) = '\n' :: newlineText cs := newlines_crlf '\r' '\n' cs

theorem lf_typable : Typable layout mode flags '\n' ↔ LfAllowed mode flags := by
  unfold Typable
  rw [if_pos (by decide)]
  constructor
  · rintro (⟨-, hlf⟩ | ⟨hne, -⟩)
    · exact hlf
    · exact absurd hne (by decide)
  · exact fun hlf => .inl ⟨rfl, hlf⟩

/-- A text as the loop reads it: one character after the other, and a
CRLF at once. -/
inductive Readable (layout mode : UInt32) (flags : UInt8) : List Char → Prop
  | nil : Readable layout mode flags []
  | char {c : Char} {tail : List Char} (hc : Typable layout mode flags c)
      (htail : Readable layout mode flags tail) : Readable layout mode flags (c :: tail)
  | crlf {tail : List Char} (hlf : LfAllowed mode flags)
      (htail : Readable layout mode flags tail) :
      Readable layout mode flags ('\r' :: '\n' :: tail)

theorem TypableText.readable {cs : List Char} (h : TypableText layout mode flags cs) :
    Readable layout mode flags cs := by
  unfold TypableText newlineText at h
  fun_induction newlines '\r' '\n' cs with
  | case1 => exact .nil
  | case2 a => exact .char (h a List.mem_cons_self) .nil
  | case3 a b rest hcrlf ih =>
      obtain ⟨rfl, rfl⟩ := hcrlf
      exact .crlf (lf_typable.mp (h '\n' List.mem_cons_self))
        (ih fun c hc => h c (List.mem_cons_of_mem _ hc))
  | case4 a b rest hcrlf ih =>
      exact .char (h a List.mem_cons_self) (ih fun c hc => h c (List.mem_cons_of_mem _ hc))

theorem Readable.typableText {cs : List Char} (h : Readable layout mode flags cs) :
    TypableText layout mode flags cs := by
  induction h with
  | nil =>
      intro d hd
      cases hd
  | char hc _ ih =>
      intro d hd
      rw [newlineText_cons hc.ne_cr] at hd
      rcases List.mem_cons.mp hd with rfl | hd
      · exact hc
      · exact ih d hd
  | crlf hlf _ ih =>
      intro d hd
      rw [newlineText_crlf] at hd
      rcases List.mem_cons.mp hd with rfl | hd
      · exact lf_typable.mpr hlf
      · exact ih d hd

-- ================================================================= the loop

variable {input : List UInt8} {length : Nat} {core : BridgeCore} {offset : Nat}

/-- The loop goes on behind a character that is typed. -/
theorem stageLoop_step (hlt : offset < length) {cp next : Nat}
    (hdecode : decodeUtf8 input length offset = .ok (cp, next)) {strokes : List BridgeStroke}
    (hchar : stageChar layout mode flags (crlfRead mode flags input length cp next).1
      = .ok strokes) :
    stageLoop layout mode flags input length core offset
      = stageLoop layout mode flags input length (strokes.foldl BridgeCore.push core)
          (crlfRead mode flags input length cp next).2 := by
  rw [stageLoop, if_pos hlt]
  split
  next st hd =>
    rw [hdecode] at hd
    cases hd
  next cp' next' hd =>
    rw [hdecode] at hd
    cases hd
    dsimp only
    rw [hchar]

/-- The loop stops at one that is not. -/
theorem stageLoop_refuse (hlt : offset < length) {cp next : Nat}
    (hdecode : decodeUtf8 input length offset = .ok (cp, next)) {st : BridgeStatus}
    (hchar : stageChar layout mode flags (crlfRead mode flags input length cp next).1
      = .error st) :
    stageLoop layout mode flags input length core offset = reject core st := by
  rw [stageLoop, if_pos hlt]
  split
  next st' hd =>
    rw [hdecode] at hd
    cases hd
  next cp' next' hd =>
    rw [hdecode] at hd
    cases hd
    dsimp only
    rw [hchar]

theorem stageLoop_malformed (hlt : offset < length) {st : BridgeStatus}
    (hdecode : decodeUtf8 input length offset = .error st) :
    stageLoop layout mode flags input length core offset = reject core st := by
  rw [stageLoop, if_pos hlt]
  split
  next st' hd =>
    rw [hdecode] at hd
    cases hd
    rfl
  next cp' next' hd =>
    rw [hdecode] at hd
    cases hd

/-- Where bytes are left, the offset is below the length. -/
theorem offset_lt_of_drop {xs : List UInt8} (hxs : (inputBytes input length).drop offset = xs)
    (hne : xs ≠ []) : offset < length := by
  have hlen : xs.length = length - offset := by rw [← hxs, List.length_drop, inputBytes_length]
  have hpos := List.length_pos_iff.mpr hne
  omega

theorem drop_append {w rest : List UInt8}
    (hxs : (inputBytes input length).drop offset = w ++ rest) :
    (inputBytes input length).drop (offset + w.length) = rest := by
  rw [← List.drop_drop, hxs, List.drop_left]

/-- A character at the offset is decoded there. -/
theorem decodeUtf8_char {c : Char} {rest : List UInt8}
    (hxs : (inputBytes input length).drop offset = utf8EncodeChar c ++ rest) :
    offset < length ∧
      decodeUtf8 input length offset = .ok (c.toNat, offset + (utf8EncodeChar c).length) := by
  have hne : utf8EncodeChar c ++ rest ≠ [] := fun h =>
    utf8_code.nonempty (a := c) trivial (List.append_eq_nil_iff.mp h).1
  have hlt := offset_lt_of_drop hxs hne
  exact ⟨hlt, (decodeUtf8_iff hlt).mpr ⟨c, rest, rfl, hxs, rfl⟩⟩

/-- The look-ahead reads the first byte of the rest. -/
theorem lookahead_iff {rest : List UInt8} (hxs : (inputBytes input length).drop offset = rest) :
    offset < length ∧ input.getD offset 0 = 10 ↔ rest.head? = some 10 := by
  constructor
  · rintro ⟨hlt, hlf⟩
    have hget := @inputBytes_drop input length offset 0 hlt
    rw [hxs, Nat.add_zero, hlf] at hget
    cases rest with
    | nil => exact absurd hget (by decide)
    | cons b rest => exact congrArg some hget
  · intro hhead
    cases rest with
    | nil => cases hhead
    | cons b rest =>
        have hlt := offset_lt_of_drop hxs (List.cons_ne_nil b rest)
        have hget := @inputBytes_drop input length offset 0 hlt
        rw [hxs] at hget
        exact ⟨hlt, hget.symm.trans (Option.some.inj hhead)⟩

/-- Anything but a carriage return before a line feed is read as it is. -/
theorem crlfRead_plain {c : Char} {rest : List UInt8}
    (hxs : (inputBytes input length).drop offset = rest)
    (h : ¬(c = '\r' ∧ LfAllowed mode flags ∧ rest.head? = some 10)) :
    crlfRead mode flags input length c.toNat offset = (c.toNat, offset) := by
  refine if_neg ?_
  rintro ⟨hcr, hmode, hflag, hahead⟩
  exact h ⟨char_eq hcr, ⟨hmode, hflag⟩, (lookahead_iff hxs).mp hahead⟩

/-- One character that is typed. -/
theorem stageLoop_char {c : Char} {rest : List UInt8}
    (hxs : (inputBytes input length).drop offset = utf8EncodeChar c ++ rest)
    (hc : Typable layout mode flags c) :
    stageLoop layout mode flags input length core offset
      = stageLoop layout mode flags input length ((typed layout c).foldl BridgeCore.push core)
          (offset + (utf8EncodeChar c).length) := by
  obtain ⟨hlt, hdecode⟩ := decodeUtf8_char hxs
  have hread := @crlfRead_plain mode flags input length _ c rest (drop_append hxs)
    fun h => hc.ne_cr h.1
  rw [@stageLoop_step layout mode flags input length core offset hlt _ _ hdecode (typed layout c)
    (by rw [hread]; exact stageChar_typed hc), hread]

/-- One CRLF where line feeds are typed. -/
theorem stageLoop_crlf {rest : List UInt8}
    (hxs : (inputBytes input length).drop offset = 13 :: 10 :: rest) (hlf : LfAllowed mode flags) :
    stageLoop layout mode flags input length core offset
      = stageLoop layout mode flags input length ((typed layout '\n').foldl BridgeCore.push core)
          (offset + 2) := by
  have hbytes : (inputBytes input length).drop offset = utf8EncodeChar '\r' ++ 10 :: rest := hxs
  obtain ⟨hlt, hdecode⟩ := decodeUtf8_char hbytes
  have hread : crlfRead mode flags input length ('\r' : Char).toNat
      (offset + (utf8EncodeChar '\r').length) = (10, offset + 2) :=
    if_pos ⟨rfl, hlf.1, hlf.2, (lookahead_iff (drop_append hbytes)).mpr rfl⟩
  rw [@stageLoop_step layout mode flags input length core offset hlt _ _ hdecode
    (typed layout '\n') (by rw [hread]; exact stageChar_typed (lf_typable.mpr hlf)), hread]

/-- The loop types a typable text, wherever it begins. -/
theorem stageLoop_text {cs : List Char} (h : Readable layout mode flags cs) {rest : List UInt8} :
    ∀ {core : BridgeCore} {offset : Nat},
      (inputBytes input length).drop offset = encode cs ++ rest →
      stageLoop layout mode flags input length core offset
        = stageLoop layout mode flags input length
            (((newlineText cs).flatMap (typed layout)).foldl BridgeCore.push core)
            (offset + (encode cs).length) := by
  induction h with
  | nil => exact fun _ => rfl
  | @char c tail hc _ ih =>
      intro core offset hxs
      rw [encode_cons, List.append_assoc] at hxs
      rw [stageLoop_char hxs hc, ih (drop_append hxs), newlineText_cons hc.ne_cr,
        List.flatMap_cons, List.foldl_append, encode_cons, List.length_append, Nat.add_assoc]
  | @crlf tail hlf _ ih =>
      intro core offset hxs
      have hbytes : (inputBytes input length).drop offset
          = 13 :: 10 :: (encode tail ++ rest) := hxs
      have hnext : (inputBytes input length).drop (offset + 2) = encode tail ++ rest :=
        drop_append (w := [13, 10]) hbytes
      have hlen : (encode ('\r' :: '\n' :: tail)).length = 2 + (encode tail).length := by
        rw [Nat.add_comm]
        rfl
      rw [stageLoop_crlf hbytes hlf, ih hnext, newlineText_crlf, List.flatMap_cons,
        List.foldl_append, hlen, Nat.add_assoc]

/-- It stops at an offence. -/
theorem stageLoop_offends {rest : List UInt8} {st : BridgeStatus}
    (hxs : (inputBytes input length).drop offset = rest)
    (h : Offends layout mode flags rest st) :
    stageLoop layout mode flags input length core offset = reject core st := by
  cases h with
  | malformed hne hnone =>
      have hlt := offset_lt_of_drop hxs hne
      cases hdecode : decodeUtf8 input length offset with
      | error st =>
          obtain rfl := decodeUtf8_error hdecode
          exact stageLoop_malformed hlt hdecode
      | ok r =>
          obtain ⟨c, tail, -, htail, -⟩ := (decodeUtf8_iff hlt).mp hdecode
          exact absurd (hxs.symm.trans htail) (hnone c tail)
  | @control c tail hcontrol hnot halone =>
      obtain ⟨hlt, hdecode⟩ := decodeUtf8_char hxs
      have hread := crlfRead_plain (drop_append hxs) halone
      exact stageLoop_refuse hlt hdecode (by rw [hread]; exact stageChar_control hcontrol hnot)
  | @unmapped c tail hcontrol hnot =>
      obtain ⟨hlt, hdecode⟩ := decodeUtf8_char hxs
      have hread := @crlfRead_plain mode flags input length _ c tail (drop_append hxs)
        fun h => hcontrol (h.1 ▸ by decide)
      exact stageLoop_refuse hlt hdecode (by rw [hread]; exact stageChar_unmapped hcontrol hnot)

/-- Bytes are a readable text with nothing behind it, or with an offence. -/
theorem text_then_offence (layout mode : UInt32) (flags : UInt8) (bytes : List UInt8) :
    ∃ cs rest, bytes = encode cs ++ rest ∧ Readable layout mode flags cs ∧
      (rest = [] ∨ ∃ st, Offends layout mode flags rest st) := by
  obtain ⟨n, hn⟩ : ∃ n, bytes.length ≤ n := ⟨_, Nat.le_refl _⟩
  induction n generalizing bytes with
  | zero => exact ⟨[], bytes, rfl, .nil, .inl (List.length_eq_zero_iff.mp (Nat.le_zero.mp hn))⟩
  | succ n ih =>
      by_cases hnil : bytes = []
      · exact ⟨[], bytes, rfl, .nil, .inl hnil⟩
      by_cases hchar : ∃ (c : Char) (tail : List UInt8), bytes = utf8EncodeChar c ++ tail
      · obtain ⟨c, tail, rfl⟩ := hchar
        have hpos := List.length_pos_iff.mpr (utf8_code.nonempty (a := c) trivial)
        rw [List.length_append] at hn
        by_cases hcrlf : c = '\r' ∧ LfAllowed mode flags ∧ tail.head? = some 10
        · obtain ⟨rfl, hlf, hhead⟩ := hcrlf
          obtain ⟨tail, rfl⟩ := List.head?_eq_some_iff.mp hhead
          rw [List.length_cons] at hn
          obtain ⟨cs, rest, rfl, hcs, hrest⟩ := ih tail (by omega)
          exact ⟨'\r' :: '\n' :: cs, rest, rfl, .crlf hlf hcs, hrest⟩
        by_cases hc : Typable layout mode flags c
        · obtain ⟨cs, rest, rfl, hcs, hrest⟩ := ih tail (by omega)
          refine ⟨c :: cs, rest, ?_, .char hc hcs, hrest⟩
          rw [encode_cons, List.append_assoc]
        · refine ⟨[], _, rfl, .nil, .inr ?_⟩
          by_cases hcontrol : IsControl c
          · exact ⟨_, .control hcontrol hc hcrlf⟩
          · unfold Typable at hc
            rw [if_neg hcontrol, Option.not_isSome_iff_eq_none] at hc
            exact ⟨_, .unmapped hcontrol hc⟩
      · exact ⟨[], bytes, rfl, .nil, .inr ⟨_, .malformed hnil fun c tail h => hchar ⟨c, tail, h⟩⟩⟩

/-- A text that is all of the input is typed. -/
theorem stageLoop_whole {cs : List Char} (hbytes : inputBytes input length = encode cs)
    (h : TypableText layout mode flags cs) :
    stageLoop layout mode flags input length core 0
      = (.ok, ((newlineText cs).flatMap (typed layout)).foldl BridgeCore.push core) := by
  have hlen : length = (encode cs).length := by rw [← hbytes, inputBytes_length]
  have hxs : (inputBytes input length).drop 0 = encode cs ++ [] := by
    rw [List.drop_zero, hbytes, List.append_nil]
  rw [stageLoop_text h.readable hxs, stageLoop, if_neg (by omega)]

/-- A first offence refuses the input. -/
theorem stageLoop_first {st : BridgeStatus}
    (h : FirstOffence layout mode flags (inputBytes input length) st) :
    (stageLoop layout mode flags input length core 0).1 = st := by
  obtain ⟨cs, rest, hbytes, hcs, hst⟩ := h
  have hxs : (inputBytes input length).drop 0 = encode cs ++ rest := hbytes
  rw [stageLoop_text hcs.readable hxs, stageLoop_offends (drop_append hxs) hst]
  rfl

-- ================================================================ the stage

theorem push_strokeList (core : BridgeCore) (stroke : BridgeStroke) :
    (core.push stroke).strokeList = core.strokeList ++ [stroke] := by
  have hearlier : ∀ i ∈ List.range core.strokeCount,
      (core.push stroke).strokes i = core.strokes i := fun i hi =>
    Function.update_of_ne (Nat.ne_of_lt (List.mem_range.mp hi)) _ _
  have hlast : (core.push stroke).strokes core.strokeCount = stroke := Function.update_self ..
  show (List.range (core.strokeCount + 1)).map (core.push stroke).strokes = _
  rw [List.range_succ, List.map_append, List.map_singleton, hlast, List.map_congr_left hearlier]
  rfl

theorem foldl_push_strokeList (strokes : List BridgeStroke) : ∀ core : BridgeCore,
    (strokes.foldl BridgeCore.push core).strokeList = core.strokeList ++ strokes := by
  induction strokes with
  | nil => exact fun core => (List.append_nil _).symm
  | cons stroke strokes ih =>
      intro core
      rw [List.foldl_cons, ih, push_strokeList, List.append_assoc]
      rfl

/-- The core with which the loop begins. -/
def openedCore (core : BridgeCore) (owner id layout mode : UInt32) (flags : UInt8)
    (nowMs ttlMs : UInt32) : BridgeCore :=
  { terminate core .empty with
    owner := owner, id := id, layout := layout, mode := mode
    flags := flags, stagedAtMs := nowMs, ttlMs := ttlMs }

variable {owner id nowMs ttlMs : UInt32}

/-- What passes the checks before the text is decided by the loop. -/
theorem stage_of_loop (hidle : ¬core.live)
    (h : Admissible core owner id layout mode flags length ttlMs) {st : BridgeStatus}
    {core' : BridgeCore}
    (hloop : stageLoop layout mode flags input length
      (openedCore core owner id layout mode flags nowMs ttlMs) 0 = (st, core')) :
    bridgeCoreStage core owner id layout mode flags (some input) length nowMs ttlMs
      = (st, if st = .ok then
          { core' with replay := core'.replay ++ [(owner, id)], state := .staged }
          else core') := by
  have hlimit : ¬(length = 0 ∨ length > bridgeMaxInputBytes) := by
    have hlength := h.lengthIn
    omega
  have hargument : ¬(owner = 0 ∨ id = 0 ∨ (layout ≠ bridgeLayoutUs ∧ layout ≠ bridgeLayoutDe) ∨
      (mode ≠ bridgeModePassword ∧ mode ≠ bridgeModeText) ∨
      ttlMs = 0 ∨ ttlMs > bridgeMaxTtlMs) := by
    rintro (h0 | h0 | ⟨h1, h2⟩ | ⟨h1, h2⟩ | h0 | h0)
    · exact h.ownerSet h0
    · exact h.idSet h0
    · exact h.layoutDefined.elim h1 h2
    · exact h.modeDefined.elim h1 h2
    · exact absurd h.ttlIn.1 (h0 ▸ by decide)
    · exact absurd h.ttlIn.2 (UInt32.not_le.mpr h0)
  have hpolicy : ¬(flags &&& ~~~(bridgeFlagAllowLf ||| bridgeFlagAllowTab) ≠ 0 ∨
      (mode = bridgeModePassword ∧ flags ≠ 0)) := by
    rintro (h0 | ⟨hmode, h0⟩)
    · exact h0 h.flagsDefined
    · exact h0 (h.password hmode)
  unfold bridgeCoreStage
  rw [if_neg hidle]
  dsimp only
  rw [if_neg hlimit, if_neg hargument, if_neg hpolicy, if_neg (by exact h.fresh),
    if_neg (by exact h.room)]
  unfold openedCore at hloop
  rw [hloop]
  cases st <;> rfl

/-- A core that accepts a stage holds no job. -/
theorem idle_of_ok {utf8 : Option (List UInt8)}
    (h : (bridgeCoreStage core owner id layout mode flags utf8 length nowMs ttlMs).1 = .ok) :
    ¬core.live := by
  intro hlive
  unfold bridgeCoreStage at h
  rw [if_pos hlive] at h
  cases h

/-- What is accepted has passed them. -/
theorem admissible_of_ok {utf8 : Option (List UInt8)}
    (h : (bridgeCoreStage core owner id layout mode flags utf8 length nowMs ttlMs).1 = .ok) :
    Admissible core owner id layout mode flags length ttlMs ∧ ∃ input, utf8 = some input := by
  unfold bridgeCoreStage at h
  split at h
  · cases h
  dsimp only at h
  split at h
  · cases h
  next hlimit =>
    split at h
    · cases h
    next input =>
      split at h
      · cases h
      next hargument =>
        split at h
        · cases h
        next hpolicy =>
          split at h
          · cases h
          next hfresh =>
            split at h
            · cases h
            next hroom =>
              simp only [not_or, not_and_or, not_not] at hargument hpolicy
              obtain ⟨howner, hid, hlayout, hmode, httl, hmax⟩ := hargument
              refine ⟨⟨by omega, howner, hid, hlayout, hmode, ?_, hpolicy.1, ?_, hfresh, hroom⟩,
                input, rfl⟩
              · have hpos : ttlMs.toNat ≠ 0 := fun h0 => httl (UInt32.toNat_inj.mp h0)
                exact ⟨UInt32.le_iff_toNat_le.mpr (Nat.one_le_iff_ne_zero.mpr hpos),
                  UInt32.not_lt.mp hmax⟩
              · exact fun hpassword => hpolicy.2.resolve_left fun hne => hne hpassword

/-- A stage of a typable text types it. -/
theorem stage_text (hidle : ¬core.live)
    (hadm : Admissible core owner id layout mode flags length ttlMs) (nowMs : UInt32)
    {cs : List Char} (hbytes : inputBytes input length = encode cs)
    (hcs : TypableText layout mode flags cs) :
    let r := bridgeCoreStage core owner id layout mode flags (some input) length nowMs ttlMs
    r.1 = .ok ∧ r.2.strokeList = (newlineText cs).flatMap (typed layout) := by
  have hstage := stage_of_loop hidle hadm
    (@stageLoop_whole layout mode flags input length
      (openedCore core owner id layout mode flags nowMs ttlMs) cs hbytes hcs)
  rw [hstage]
  exact ⟨rfl, foldl_push_strokeList ((newlineText cs).flatMap (typed layout)) _⟩

/-- A stage of an input with an offence is refused for the first one. -/
theorem stage_first (hidle : ¬core.live)
    (hadm : Admissible core owner id layout mode flags length ttlMs) (nowMs : UInt32)
    {st : BridgeStatus} (h : FirstOffence layout mode flags (inputBytes input length) st) :
    (bridgeCoreStage core owner id layout mode flags (some input) length nowMs ttlMs).1 = st := by
  rw [stage_of_loop hidle hadm rfl]
  exact stageLoop_first h

theorem FirstOffence.ne_ok {bytes : List UInt8} {st : BridgeStatus}
    (h : FirstOffence layout mode flags bytes st) : st ≠ .ok := by
  obtain ⟨cs, rest, -, -, hst⟩ := h
  cases hst <;> decide

theorem typable_or_first (layout mode : UInt32) (flags : UInt8) (bytes : List UInt8) :
    (∃ cs, bytes = encode cs ∧ TypableText layout mode flags cs) ∨
      ∃ st, FirstOffence layout mode flags bytes st := by
  obtain ⟨cs, rest, rfl, hcs, rfl | ⟨st, hst⟩⟩ := text_then_offence layout mode flags bytes
  · exact .inl ⟨cs, List.append_nil _, hcs.typableText⟩
  · exact .inr ⟨st, cs, rest, rfl, hcs.typableText, hst⟩

/-- What is accepted is a typable text, and is typed. -/
theorem stage_accepted
    (hok : (bridgeCoreStage core owner id layout mode flags (some input) length nowMs ttlMs).1
      = .ok) :
    ∃ cs, inputBytes input length = encode cs ∧ TypableText layout mode flags cs ∧
      (bridgeCoreStage core owner id layout mode flags (some input) length nowMs
        ttlMs).2.strokeList = (newlineText cs).flatMap (typed layout) := by
  have hidle := idle_of_ok hok
  have hadm := (admissible_of_ok hok).1
  rcases typable_or_first layout mode flags (inputBytes input length) with
    ⟨cs, hbytes, hcs⟩ | ⟨st, hst⟩
  · exact ⟨cs, hbytes, hcs, (stage_text hidle hadm nowMs hbytes hcs).2⟩
  · have hrefused := stage_first hidle hadm nowMs hst
    exact absurd (hrefused.symm.trans hok) hst.ne_ok

/-- What a stage accepts. -/
theorem stage_ok_iff (hidle : ¬core.live) (owner id layout mode : UInt32) (flags : UInt8)
    (utf8 : Option (List UInt8)) (length : Nat) (nowMs ttlMs : UInt32) :
    (bridgeCoreStage core owner id layout mode flags utf8 length nowMs ttlMs).1 = .ok ↔
      Admissible core owner id layout mode flags length ttlMs ∧
        ∃ input cs, utf8 = some input ∧ inputBytes input length = encode cs ∧
          TypableText layout mode flags cs := by
  constructor
  · intro hok
    obtain ⟨hadm, input, rfl⟩ := admissible_of_ok hok
    obtain ⟨cs, hbytes, hcs, -⟩ := stage_accepted hok
    exact ⟨hadm, input, cs, rfl, hbytes, hcs⟩
  · rintro ⟨hadm, input, cs, rfl, hbytes, hcs⟩
    exact (stage_text hidle hadm nowMs hbytes hcs).1

/-- The meaning of a stage, for a core that holds no job. It is accepted
where its parameters and the ledger allow it and the input is the UTF-8
of a typable text; then it types what that text says, each CRLF being one
line feed. Where only the input is at fault, the first offence decides
the status. -/
theorem stage_exact (hidle : ¬core.live) (owner id layout mode : UInt32) (flags : UInt8)
    (utf8 : Option (List UInt8)) (length : Nat) (nowMs ttlMs : UInt32) :
    let r := bridgeCoreStage core owner id layout mode flags utf8 length nowMs ttlMs
    (r.1 = .ok ↔
      Admissible core owner id layout mode flags length ttlMs ∧
        ∃ input cs, utf8 = some input ∧ inputBytes input length = encode cs ∧
          TypableText layout mode flags cs) ∧
    (∀ input cs, r.1 = .ok → utf8 = some input → inputBytes input length = encode cs →
      r.2.strokeList = (newlineText cs).flatMap (typed layout)) ∧
    ∀ input st, Admissible core owner id layout mode flags length ttlMs → utf8 = some input →
      st ≠ .ok → (r.1 = st ↔ FirstOffence layout mode flags (inputBytes input length) st) := by
  intro r
  refine ⟨stage_ok_iff hidle owner id layout mode flags utf8 length nowMs ttlMs, ?_, ?_⟩
  · rintro input cs hok rfl hbytes
    obtain ⟨cs', hbytes', -, hlist⟩ := stage_accepted hok
    rwa [encode_inj (hbytes.symm.trans hbytes')]
  · rintro input st hadm rfl hne
    constructor
    · intro hst
      rcases typable_or_first layout mode flags (inputBytes input length) with
        ⟨cs, hbytes, hcs⟩ | ⟨st', hfirst⟩
      · exact absurd (hst.symm.trans (stage_text hidle hadm nowMs hbytes hcs).1) hne
      · rwa [← hst, show r.1 = st' from stage_first hidle hadm nowMs hfirst]
    · exact stage_first hidle hadm nowMs

/-- A circumflex, a CRLF and a euro sign on the German layout. -/
theorem stage_exact_bench :
    let r := bridgeCoreStage bridgeCoreInit 7 9 bridgeLayoutDe bridgeModeText 1
      (some [0x5e, 0x0d, 0x0a, 0xe2, 0x82, 0xac]) 6 0 1000
    r.1 = .ok ∧ r.2.strokeList = [⟨0, 53⟩, ⟨0, 44⟩, ⟨0, 0x28⟩, ⟨64, 8⟩] := by
  intro r
  obtain ⟨hok, hlist, -⟩ := @stage_exact bridgeCoreInit (by decide) 7 9 bridgeLayoutDe
    bridgeModeText 1 (some [0x5e, 0x0d, 0x0a, 0xe2, 0x82, 0xac]) 6 0 1000
  have hbytes : inputBytes [0x5e, 0x0d, 0x0a, 0xe2, 0x82, 0xac] 6
      = encode ['^', '\r', '\n', Char.ofNat 0x20ac] := by decide
  have haccepted : r.1 = .ok := hok.mpr ⟨by constructor <;> decide, _, _, rfl, hbytes, by decide⟩
  exact ⟨haccepted, (hlist _ _ haccepted rfl hbytes).trans (by decide)⟩

end PicoBridge
