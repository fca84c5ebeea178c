/-
The radio record, exactly: `parse_common`, `radio_config_build2` and, of
`tools/radio_provision.py`, `pack_sector`.

# What is modelled how

- `parseCommonChecked` is `parse_common` statement by statement, on a
  buffer that it may read beyond (it is none there) and with the whole of
  `*out`: the strings with their NUL padding, the pointers as offsets.
- `radioConfigBuild2Into` writes `out` in the order of the source and
  carries the CRC through its three loops.
- A Python string is its characters. `zlib.crc32` is standard CRC-32, as
  is `crc32`; `struct.pack` is given lengths that fit.

# The argument

A sector that is accepted is determined, piece by piece, by what is read
off it (`parseCommon_iff`): twelve pieces and the erased tail fill it. So
whoever writes these pieces is inverted by the parser.
-/
import PicoBridge.Core.Bounds
import PicoBridge.Lib.Layout
import PicoBridge.Lib.Utf8
import PicoBridge.Noise.Crypto
import PicoBridge.Radio.Config

namespace PicoBridge

open Lib.Layout

-- =============================================================== the parser

/-- `struct radio_config`, as it lies in memory; a pointer into the sector
is its offset. -/
structure RadioConfigOut where
  ssid : List UInt8
  psk : List UInt8
  cert : Option Nat
  key : Option Nat
  certLen : Nat
  keyLen : Nat
  deriving DecidableEq

/-- `memset(out, 0, sizeof(*out))`. -/
def radioConfigOutZero : RadioConfigOut where
  ssid := List.replicate 33 0
  psk := List.replicate 64 0
  cert := none
  key := none
  certLen := 0
  keyLen := 0

/-- A C string in a zeroed array. -/
def cString (size : Nat) (bytes : List UInt8) : List UInt8 :=
  bytes ++ List.replicate (size - bytes.length) 0

/-- The bytes `s[i..i + n)`. -/
def readAt (s : List UInt8) (i n : Nat) : Option (List UInt8) :=
  if i + n ≤ s.length then some ((s.drop i).take n) else none

/-- `le16(s + i)`. -/
def le16At (s : List UInt8) (i : Nat) : Option Nat := (readAt s i 2).map leValue

/-- A loop that gives up at a byte without a property. -/
def allFrom (p : UInt8 → Bool) (s : List UInt8) (i stop : Nat) : Option Bool :=
  if i < stop then
    match s[i]? with
    | none => none
    | some b => if p b then allFrom p s (i + 1) stop else some false
  else some true
termination_by stop - i

/-- A CRC, over some bytes more. -/
def crcLoop (crc : UInt32) (data : List UInt8) : UInt32 :=
  data.foldl (fun crc byte => crcBit^[8] (crc ^^^ byte.toUInt32)) crc

/-- The CRC's loop. -/
def crcFrom (s : List UInt8) (i stop : Nat) (crc : UInt32) : Option UInt32 :=
  if i < stop then
    match s[i]? with
    | none => none
    | some b => crcFrom s (i + 1) stop (crcLoop crc [b])
  else some crc
termination_by stop - i

/-- `parse_common`, with a buffer and `n` for its first two arguments. -/
def parseCommonChecked (sector : Option (List UInt8)) (n : Nat) (magic : List UInt8)
    (schema pskMin : Nat) (certsMandatory : Bool) : Option (Bool × RadioConfigOut) :=
  let failed := some (false, radioConfigOutZero)
  match sector with
  | none => failed
  | some s =>
      if n ≠ radioSectorSize then failed
      else do
        let m ← readAt s 0 8
        if m ≠ magic then failed
        else do
        let version ← le16At s 8
        if version ≠ schema then failed
        else do
        let a ← le16At s 16
        let b ← le16At s 18
        let c ← le16At s 20
        let d ← le16At s 22
        if a < 1 ∨ a > 32 ∨ b < pskMin ∨ b > 63 then failed
        else if certsMandatory ∧ (c < 1 ∨ c > 2048 ∨ d < 1 ∨ d > 1024) then failed
        else if ¬certsMandatory ∧ (c > 2048 ∨ d > 1024 ∨ ¬(c = 0 ↔ d = 0)) then failed
        else if 24 + a + b + c + d > n then failed
        else do
        let total ← le16At s 10
        if total ≠ 24 + a + b + c + d ∨ total > n then failed
        else do
        let text ← allFrom printable s 24 (24 + a + b)
        if ¬text then failed
        else do
        let erased ← allFrom (· == 255) s total n
        if ¬erased then failed
        else do
        let crc ← crcFrom s 16 total 0xffffffff
        let stored ← readAt s 12 4
        if crc ^^^ 0xffffffff ≠ UInt32.ofNat (leValue stored) then failed
        else do
        let ssid ← readAt s 24 a
        let psk ← readAt s (24 + a) b
        some (true,
          { ssid := cString 33 ssid
            psk := cString 64 psk
            cert := some (24 + a + b)
            key := some (24 + a + b + c)
            certLen := c
            keyLen := d })

/-- `radio_config_parse`. -/
def radioConfigParseChecked (sector : Option (List UInt8)) (n : Nat) :
    Option (Bool × RadioConfigOut) :=
  parseCommonChecked sector n radioMagic1 1 20 true

/-- `radio_config_parse2`. -/
def radioConfigParse2Checked (sector : Option (List UInt8)) (n : Nat) :
    Option (Bool × RadioConfigOut) :=
  parseCommonChecked sector n radioMagic2 2 8 false

-- ============================================================= the builders

/-- `memcpy(out + offset, bytes, length of bytes)`. -/
def writeAt (out : Sector) (offset : Nat) (bytes : List UInt8) : Sector :=
  fun i => write (byteAt out) offset bytes i

/-- `radio_config_build2`: its result, and `out` after it. -/
def radioConfigBuild2Into (ssid psk : List UInt8) (out : Sector) : Bool × Sector :=
  if ssid.length < 1 ∨ ssid.length > 32 then (false, out)
  else if psk.length < 8 ∨ psk.length > 63 then (false, out)
  else if ¬ssid.all printable then (false, out)
  else if ¬psk.all printable then (false, out)
  else
    let out : Sector := fun _ => 0xff
    let total := 24 + ssid.length + psk.length
    let out := writeAt out 0 radioMagic2
    let out := writeAt out 8 [2, 0]
    let out := writeAt out 10 (leBytes 2 total)
    let out := writeAt out 16 (leBytes 2 ssid.length)
    let out := writeAt out 18 (leBytes 2 psk.length)
    let out := writeAt out 20 [0, 0, 0, 0]
    let lens := [byteAt out 16, byteAt out 17, byteAt out 18, byteAt out 19, 0, 0, 0, 0]
    let crc := crcLoop 0xffffffff lens
    let crc := crcLoop crc ssid
    let crc := crcLoop crc psk
    let crc := crc ^^^ 0xffffffff
    let out := writeAt out 12 (leBytes 4 crc.toNat)
    let out := writeAt out 24 ssid
    let out := writeAt out (24 + ssid.length) psk
    (true, out)

/-- `value.encode("ascii")`, of characters that are. -/
def encodeAscii (value : List Char) : List UInt8 := value.map fun c => UInt8.ofNat c.toNat

/-- The test of a string in `pack_sector`. -/
def credentialFormat (value : List Char) (low high : Nat) : Bool :=
  low ≤ value.length && value.length ≤ high &&
    value.all fun c => 32 ≤ c.toNat && c.toNat ≤ 126

/-- `pack_sector`, which is none where it raises. -/
def packSector (ssid passphrase : List Char) (certDer keyDer : List UInt8) : Option (List UInt8) :=
  if ¬credentialFormat ssid 1 32 ∨ ¬credentialFormat passphrase 20 63 then none
  else if ¬(1 ≤ certDer.length ∧ certDer.length ≤ 2048) then none
  else if ¬(1 ≤ keyDer.length ∧ keyDer.length ≤ 1024) then none
  else
    let parts := [encodeAscii ssid, encodeAscii passphrase, certDer, keyDer]
    let lengths := parts.flatMap fun part => leBytes 2 part.length
    let payload := lengths ++ parts.flatten
    let total := 16 + payload.length
    let header := radioMagic1 ++ (leBytes 2 1 ++ leBytes 2 total ++ leBytes 4 (crc32 payload).toNat)
    some (header ++ payload ++ List.replicate (4096 - total) 0xff)

-- =============================================================== the pieces

theorem bytesAt_eq (s : Sector) (i n : Nat) : bytesAt s i n = slice (byteAt s) i n := rfl

@[simp] theorem bytesAt_length (s : Sector) (i n : Nat) : (bytesAt s i n).length = n :=
  slice_length (byteAt s) i n

theorem leAt_eq (s : Sector) (n : Nat) : ∀ i, leAt s i n = leValue (bytesAt s i n) := by
  induction n with
  | zero => exact fun i => rfl
  | succ n ih =>
      intro i
      rw [leAt, ih, bytesAt_eq s i (n + 1), slice_succ]
      rfl

/-- An integer is read where its bytes are. -/
theorem leAt_eq_iff (s : Sector) (i : Nat) {n value : Nat} (h : value < 256 ^ n) :
    leAt s i n = value ↔ bytesAt s i n = leBytes n value := by
  rw [leAt_eq]
  constructor
  · rintro rfl
    have hbytes := leBytes_leValue (bytesAt s i n)
    rw [bytesAt_length] at hbytes
    exact hbytes.symm
  · intro hbytes
    rw [hbytes, leValue_leBytes, Nat.mod_eq_of_lt h]

/-- Where a record ends. -/
def RadioConfig.total (c : RadioConfig) : Nat :=
  24 + c.ssid.length + c.psk.length + c.cert.length + c.key.length

/-- What the CRC of a record covers. -/
def RadioConfig.payload (c : RadioConfig) : List (List UInt8) :=
  [leBytes 2 c.ssid.length, leBytes 2 c.psk.length, leBytes 2 c.cert.length,
    leBytes 2 c.key.length, c.ssid, c.psk, c.cert, c.key]

/-- The pieces of a sector with a record. -/
def RadioConfig.pieces (c : RadioConfig) (magic : List UInt8) (schema : Nat) :
    List (List UInt8) :=
  [magic, leBytes 2 schema, leBytes 2 c.total, leBytes 4 (crc32 c.payload.flatten).toNat]
    ++ c.payload ++ [List.replicate (4096 - c.total) 0xff]

/-- The lengths of a record and what they are of, where they are read. -/
structure HoldsFields (s : Sector) (c : RadioConfig) : Prop where
  ssidLen : leAt s 16 2 = c.ssid.length
  pskLen : leAt s 18 2 = c.psk.length
  certLen : leAt s 20 2 = c.cert.length
  keyLen : leAt s 22 2 = c.key.length
  ssid : bytesAt s 24 c.ssid.length = c.ssid
  psk : bytesAt s (24 + c.ssid.length) c.psk.length = c.psk
  cert : bytesAt s (24 + c.ssid.length + c.psk.length) c.cert.length = c.cert
  key : bytesAt s (24 + c.ssid.length + c.psk.length + c.cert.length) c.key.length = c.key

/-- A sector with a record. -/
structure HoldsRecord (s : Sector) (magic : List UInt8) (schema : Nat) (c : RadioConfig) : Prop
    extends HoldsFields s c where
  magic : bytesAt s 0 8 = magic
  schema : leAt s 8 2 = schema
  total : leAt s 10 2 = c.total
  crc : crc32 c.payload.flatten = UInt32.ofNat (leAt s 12 4)
  erased : bytesAt s c.total (4096 - c.total) = List.replicate (4096 - c.total) 0xff

/-- A CRC is read where its bytes are. -/
theorem crcAt_iff (s : Sector) (i : Nat) (crc : UInt32) :
    crc = UInt32.ofNat (leAt s i 4) ↔ bytesAt s i 4 = leBytes 4 crc.toNat := by
  rw [← leAt_eq_iff s i (show crc.toNat < 256 ^ 4 from crc.toNat_lt)]
  have hlt : leAt s i 4 < 2 ^ 32 := by
    rw [leAt_eq]
    exact Nat.lt_of_lt_of_eq (leValue_lt _) (by rw [bytesAt_length]; norm_num)
  constructor
  · rintro rfl
    rw [UInt32.toNat_ofNat', Nat.mod_eq_of_lt hlt]
  · intro h
    rw [h, UInt32.ofNat_toNat]

variable {s : Sector} {magic : List UInt8} {schema : Nat} {c : RadioConfig}

/-- A length that a record can have. -/
theorem RadioConfig.lens_lt (htotal : c.total < 256 ^ 2) :
    c.ssid.length < 256 ^ 2 ∧ c.psk.length < 256 ^ 2 ∧ c.cert.length < 256 ^ 2 ∧
      c.key.length < 256 ^ 2 := by
  unfold RadioConfig.total at htotal
  omega

/-- What the CRC covers is the fields. -/
theorem laid_payload_iff (htotal : c.total < 256 ^ 2) :
    Laid (byteAt s) 16 c.payload ↔ HoldsFields s c := by
  obtain ⟨hssid, hpsk, hcert, hkey⟩ := c.lens_lt htotal
  unfold RadioConfig.payload
  simp only [laid_cons, laid_nil, leBytes_length, Nat.reduceAdd, ← bytesAt_eq, and_true]
  rw [← leAt_eq_iff s 16 hssid, ← leAt_eq_iff s 18 hpsk, ← leAt_eq_iff s 20 hcert,
    ← leAt_eq_iff s 22 hkey]
  constructor
  · rintro ⟨h16, h18, h20, h22, hs, hp, hc, hk⟩
    exact ⟨h16, h18, h20, h22, hs, hp, hc, hk⟩
  · rintro ⟨h16, h18, h20, h22, hs, hp, hc, hk⟩
    exact ⟨h16, h18, h20, h22, hs, hp, hc, hk⟩

theorem RadioConfig.payload_length (c : RadioConfig) :
    c.payload.flatten.length = c.total - 16 := by
  unfold RadioConfig.payload RadioConfig.total
  simp only [List.flatten_cons, List.flatten_nil, List.length_append, List.length_nil,
    leBytes_length]
  omega

theorem RadioConfig.sixteen_le (c : RadioConfig) : 16 ≤ c.total := by
  unfold RadioConfig.total
  omega

/-- The pieces are the record. -/
theorem laid_pieces_iff (hmagic : magic.length = 8) (hschema : schema < 256 ^ 2)
    (htotal : c.total < 256 ^ 2) :
    Laid (byteAt s) 0 (c.pieces magic schema) ↔ HoldsRecord s magic schema c := by
  have hend : 16 + (c.total - 16) = c.total := by
    have := c.sixteen_le
    omega
  unfold RadioConfig.pieces
  rw [laid_append, laid_append]
  simp only [laid_cons, laid_nil, List.flatten_cons, List.flatten_nil, List.flatten_append,
    List.length_append, List.length_nil, hmagic, leBytes_length, List.length_replicate,
    Nat.reduceAdd, Nat.zero_add, ← bytesAt_eq, and_true, c.payload_length,
    laid_payload_iff htotal, hend]
  rw [← leAt_eq_iff s 8 hschema, ← leAt_eq_iff s 10 htotal, ← crcAt_iff]
  constructor
  · rintro ⟨⟨⟨hm, hs, ht, hc⟩, hfields⟩, herased⟩
    exact ⟨hfields, hm, hs, ht, hc, herased⟩
  · rintro ⟨hfields, hm, hs, ht, hc, herased⟩
    exact ⟨⟨⟨hm, hs, ht, hc⟩, hfields⟩, herased⟩

/-- They fill a sector. -/
theorem RadioConfig.pieces_length (hmagic : magic.length = 8) (htotal : c.total ≤ 4096) :
    (c.pieces magic schema).flatten.length = 4096 := by
  have := c.sixteen_le
  unfold RadioConfig.pieces
  simp only [List.flatten_append, List.flatten_cons, List.flatten_nil, List.length_append,
    List.length_nil, hmagic, leBytes_length, List.length_replicate, c.payload_length]
  omega

/-- Whoever holds the pieces is determined by them. -/
theorem laid_sector_inj {parts : List (List UInt8)} {s t : Sector}
    (hs : Laid (byteAt s) 0 parts) (ht : Laid (byteAt t) 0 parts)
    (hlength : parts.flatten.length = 4096) : s = t := by
  have heq := ((laid_iff _ _ _).mp hs).trans ((laid_iff _ _ _).mp ht).symm
  funext i
  have hbyte := slice_inj heq i (by rw [hlength]; exact i.isLt)
  rw [Nat.zero_add, byteAt_eq s i.isLt, byteAt_eq t i.isLt] at hbyte
  exact hbyte

-- ========================================================= what is accepted

/-- The limits of the fields. -/
structure Admits (pskMin : Nat) (certsMandatory : Bool) (c : RadioConfig) : Prop where
  ssid : 1 ≤ c.ssid.length ∧ c.ssid.length ≤ 32
  psk : pskMin ≤ c.psk.length ∧ c.psk.length ≤ 63
  printable : (c.ssid ++ c.psk).all printable = true
  cert : c.cert.length ≤ 2048 ∧ c.key.length ≤ 1024
  certs : if certsMandatory then 1 ≤ c.cert.length ∧ 1 ≤ c.key.length
    else c.cert.length = 0 ↔ c.key.length = 0

theorem Admits.total_le {pskMin : Nat} {certsMandatory : Bool} {c : RadioConfig}
    (h : Admits pskMin certsMandatory c) : c.total ≤ 3191 := by
  have hssid := h.ssid
  have hpsk := h.psk
  have hcert := h.cert
  unfold RadioConfig.total
  omega

/-- The text of a record. -/
theorem HoldsFields.text (h : HoldsFields s c) :
    bytesAt s 24 (c.ssid.length + c.psk.length) = c.ssid ++ c.psk := by
  have hssid := h.ssid
  have hpsk := h.psk
  rw [bytesAt_eq] at hssid hpsk ⊢
  rw [slice_add, hssid, hpsk]

/-- What the CRC covers. -/
theorem HoldsFields.payload (h : HoldsFields s c) (htotal : c.total < 256 ^ 2) :
    bytesAt s 16 (c.total - 16) = c.payload.flatten := by
  have hlaid := (laid_iff _ _ _).mp ((laid_payload_iff htotal).mpr h)
  rwa [c.payload_length] at hlaid

/-- An erased tail. -/
theorem erased_iff (s : Sector) (i n : Nat) :
    (bytesAt s i n).all (· == 255) = true ↔ bytesAt s i n = List.replicate n 0xff := by
  rw [List.all_eq_true, List.eq_replicate_iff]
  constructor
  · exact fun h => ⟨bytesAt_length s i n, fun b hb => beq_iff_eq.mp (h b hb)⟩
  · exact fun h b hb => beq_iff_eq.mpr (h.2 b hb)

/-- The tests of the two certificate lengths. -/
theorem certLens_iff (certsMandatory : Bool) (c d : Nat) :
    (¬(certsMandatory = true ∧ (c < 1 ∨ c > 2048 ∨ d < 1 ∨ d > 1024)) ∧
      ¬(¬certsMandatory = true ∧ (c > 2048 ∨ d > 1024 ∨ ¬(c = 0 ↔ d = 0)))) ↔
      (c ≤ 2048 ∧ d ≤ 1024) ∧ if certsMandatory then 1 ≤ c ∧ 1 ≤ d else c = 0 ↔ d = 0 := by
  cases certsMandatory
  · simp only [Bool.false_eq_true, false_and, not_false_eq_true, true_and, if_false]
    omega
  · simp only [true_and, not_true_eq_false, false_and, not_false_eq_true, and_true, if_true]
    omega

/-- A sector is accepted, as a record within the limits, where it holds
the record. -/
theorem parseCommon_iff {pskMin : Nat} {certsMandatory : Bool} :
    parseCommon (some s) radioSectorSize magic schema pskMin certsMandatory = some c ↔
      Admits pskMin certsMandatory c ∧ HoldsRecord s magic schema c := by
  unfold parseCommon
  dsimp only
  simp only [Option.ite_none_left_eq_some, ne_eq, not_or, not_not, true_and, Option.some.injEq]
  constructor
  · rintro ⟨⟨hmagic, hschema⟩, hlens, hcerts, hoptional, -, ⟨htotal, -⟩, htext, herased, hcrc, hc⟩
    have hfields : HoldsFields s c := by
      rw [← hc]
      constructor <;> simp only [bytesAt_length]
    have hend : leAt s 10 2 = c.total := by
      rw [htotal, hfields.ssidLen, hfields.pskLen, hfields.certLen, hfields.keyLen]
      rfl
    have hadmits : Admits pskMin certsMandatory c := by
      rw [hfields.ssidLen, hfields.pskLen] at hlens htext
      rw [hfields.certLen, hfields.keyLen] at hcerts hoptional
      rw [hfields.text] at htext
      obtain ⟨hcert, hkey⟩ := (certLens_iff _ _ _).mp ⟨hcerts, hoptional⟩
      exact ⟨by omega, by omega, htext, hcert, hkey⟩
    have htotal := hadmits.total_le
    rw [hend, hfields.payload (by omega)] at hcrc
    rw [hend] at herased
    exact ⟨hadmits, hfields, hmagic, hschema, hend, hcrc, (erased_iff _ _ _).mp herased⟩
  · rintro ⟨hadmits, h⟩
    have htotal := hadmits.total_le
    have hssid := hadmits.ssid
    have hpsk := hadmits.psk
    obtain ⟨hcerts, hoptional⟩ := (certLens_iff _ _ _).mpr ⟨hadmits.cert, hadmits.certs⟩
    rw [h.ssidLen, h.pskLen, h.certLen, h.keyLen, h.total]
    refine ⟨⟨h.magic, h.schema⟩, by omega, hcerts, hoptional, ?_, ⟨rfl, ?_⟩, ?_, ?_, ?_, ?_⟩
    · show ¬c.total > 4096
      omega
    · show ¬c.total > 4096
      omega
    · rw [h.text]
      exact hadmits.printable
    · exact (erased_iff _ _ _).mpr h.erased
    · rw [h.payload (by omega)]
      exact h.crc
    · rw [h.ssid, h.psk, h.cert, h.key]

-- ============================================================ what is written

theorem byteAt_writeAll (ws : List (Nat × List UInt8)) : ∀ (out : Sector) {k : Nat}, k < 4096 →
    byteAt (ws.foldl (fun out w => writeAt out w.1 w.2) out) k = writeAll (byteAt out) ws k := by
  induction ws with
  | nil => exact fun out k _ => rfl
  | cons w ws ih =>
      intro out k hk
      have hhead : byteAt (writeAt out w.1 w.2) k = write (byteAt out) w.1 w.2 k := byteAt_eq _ hk
      exact (ih (writeAt out w.1 w.2) hk).trans (writeAll_congr ws hhead)

/-- `~crc`, in the two ways it is written. -/
theorem xor_ones (crc : UInt32) : crc ^^^ 0xffffffff = ~~~crc := by
  apply UInt32.toBitVec_inj.mp
  rw [UInt32.toBitVec_xor, UInt32.toBitVec_not]
  exact BitVec.xor_allOnes

theorem crcLoop_append (crc : UInt32) (data data' : List UInt8) :
    crcLoop crc (data ++ data') = crcLoop (crcLoop crc data) data' := List.foldl_append

theorem crc32_eq (data : List UInt8) : crc32 data = crcLoop 0xffffffff data ^^^ 0xffffffff :=
  (xor_ones _).symm

/-- A sector after some writes. -/
def writeEach (out : Sector) (ws : List (Nat × List UInt8)) : Sector :=
  ws.foldl (fun out w => writeAt out w.1 w.2) out

theorem bytesAt_writeEach {ws : List (Nat × List UInt8)} {w : Nat × List UInt8} (out : Sector)
    (hapart : ws.Pairwise Apart) (hw : w ∈ ws) (hfits : w.1 + w.2.length ≤ 4096) :
    bytesAt (writeEach out ws) w.1 w.2.length = w.2 := by
  refine Eq.trans (slice_congr fun k hk => ?_) (@slice_writeAll _ w ws (byteAt out) hapart hw)
  exact byteAt_writeAll ws out (by omega)

theorem bytesAt_writeEach_frame {ws : List (Nat × List UInt8)} {i n : Nat} (out : Sector)
    (hapart : ∀ w ∈ ws, i + n ≤ w.1 ∨ w.1 + w.2.length ≤ i) (hfits : i + n ≤ 4096) :
    bytesAt (writeEach out ws) i n = bytesAt out i n := by
  refine Eq.trans (slice_congr fun k hk => ?_) (@slice_writeAll_frame _ i n ws (byteAt out) hapart)
  exact byteAt_writeAll ws out (by omega)

/-- The record of a ssid and a psk. -/
def plainConfig (ssid psk : List UInt8) : RadioConfig := ⟨ssid, psk, [], []⟩

/-- The writes of `radio_config_build2` before its CRC. -/
def headWrites (ssid psk : List UInt8) : List (Nat × List UInt8) :=
  [(0, radioMagic2), (8, [2, 0]), (10, leBytes 2 (24 + ssid.length + psk.length)),
    (16, leBytes 2 ssid.length), (18, leBytes 2 psk.length), (20, [0, 0, 0, 0])]

/-- Its writes. -/
def radioWrites (ssid psk : List UInt8) : List (Nat × List UInt8) :=
  headWrites ssid psk ++
    [(12, leBytes 4 (crc32 (plainConfig ssid psk).payload.flatten).toNat), (24, ssid),
      (24 + ssid.length, psk)]

theorem radioWrites_apart (ssid psk : List UInt8) : (radioWrites ssid psk).Pairwise Apart := by
  unfold radioWrites headWrites
  simp [Apart, leBytes_length, radioMagic2]
  omega

theorem headWrites_apart (ssid psk : List UInt8) : (headWrites ssid psk).Pairwise Apart :=
  (List.pairwise_append.mp (radioWrites_apart ssid psk)).1

/-- The eight bytes that the CRC begins with. -/
theorem headWrites_lens (ssid psk : List UInt8) :
    let out := writeEach (fun _ => 0xff) (headWrites ssid psk)
    [byteAt out 16, byteAt out 17, byteAt out 18, byteAt out 19, 0, 0, 0, 0]
      = leBytes 2 ssid.length ++ leBytes 2 psk.length ++ leBytes 2 0 ++ leBytes 2 0 := by
  intro out
  have hssid : bytesAt out 16 2 = leBytes 2 ssid.length :=
    bytesAt_writeEach (w := (16, leBytes 2 ssid.length)) _ (headWrites_apart ssid psk)
      (by simp [headWrites]) (by simp [leBytes_length])
  have hpsk : bytesAt out 18 2 = leBytes 2 psk.length :=
    bytesAt_writeEach (w := (18, leBytes 2 psk.length)) _ (headWrites_apart ssid psk)
      (by simp [headWrites]) (by simp [leBytes_length])
  rw [← hssid, ← hpsk]
  rfl

theorem radioWrites_end (ssid psk : List UInt8) :
    ∀ w ∈ radioWrites ssid psk, w.1 + w.2.length ≤ (plainConfig ssid psk).total := by
  unfold radioWrites headWrites
  show ∀ w ∈ _, _ ≤ 24 + ssid.length + psk.length + 0 + 0
  simp [leBytes_length, radioMagic2]
  omega

/-- What the writes leave is the record. -/
theorem radioWrites_hold {ssid psk : List UInt8} (h : Admits 8 false (plainConfig ssid psk)) :
    HoldsRecord (writeEach (fun _ => 0xff) (radioWrites ssid psk)) radioMagic2 2
      (plainConfig ssid psk) := by
  have htotal := h.total_le
  obtain ⟨hssid, hpsk, -, -⟩ := (plainConfig ssid psk).lens_lt (by omega)
  have herased : bytesAt (writeEach (fun _ => 0xff) (radioWrites ssid psk))
      (plainConfig ssid psk).total (4096 - (plainConfig ssid psk).total)
      = List.replicate (4096 - (plainConfig ssid psk).total) 0xff := by
    rw [bytesAt_writeEach_frame _ (fun w hw => .inr (radioWrites_end ssid psk w hw)) (by omega)]
    refine List.eq_replicate_iff.mpr ⟨bytesAt_length _ _ _, fun b hb => ?_⟩
    obtain ⟨k, -, rfl⟩ := List.mem_map.mp hb
    rfl
  have hpiece : ∀ w ∈ radioWrites ssid psk,
      bytesAt (writeEach (fun _ => 0xff) (radioWrites ssid psk)) w.1 w.2.length = w.2 := by
    intro w hw
    have hend := radioWrites_end ssid psk w hw
    exact bytesAt_writeEach _ (radioWrites_apart ssid psk) hw (by omega)
  generalize writeEach (fun _ => 0xff) (radioWrites ssid psk) = image at hpiece herased
  simp only [radioWrites, headWrites, List.cons_append, List.nil_append, List.forall_mem_cons,
    leBytes_length] at hpiece
  obtain ⟨h0, h8, h10, h16, h18, h20, h12, h24, hpsk', -⟩ := hpiece
  have hzero : bytesAt image 20 2 ++ bytesAt image 22 2 = [0, 0] ++ [0, 0] :=
    (slice_add (byteAt image) 20 2 2).symm.trans h20
  obtain ⟨h20, h22⟩ := List.append_inj hzero (bytesAt_length image 20 2)
  exact {
    ssidLen := (leAt_eq_iff image 16 hssid).mpr h16
    pskLen := (leAt_eq_iff image 18 hpsk).mpr h18
    certLen := show leAt image 20 2 = 0 from (leAt_eq_iff image 20 (by decide)).mpr h20
    keyLen := show leAt image 22 2 = 0 from (leAt_eq_iff image 22 (by decide)).mpr h22
    ssid := h24
    psk := hpsk'
    cert := rfl
    key := rfl
    magic := h0
    schema := (leAt_eq_iff image 8 (by decide)).mpr h8
    total := (leAt_eq_iff image 10 (by omega)).mpr h10
    crc := (crcAt_iff image 12 _).mpr h12
    erased := herased }

/-- The limits of `radio_config_build2`. -/
theorem admits_plain_iff (ssid psk : List UInt8) :
    Admits 8 false (plainConfig ssid psk) ↔
      (1 ≤ ssid.length ∧ ssid.length ≤ 32) ∧ (8 ≤ psk.length ∧ psk.length ≤ 63) ∧
        ssid.all printable = true ∧ psk.all printable = true := by
  constructor
  · intro h
    have htext := h.printable
    rw [List.all_append, Bool.and_eq_true] at htext
    exact ⟨h.ssid, h.psk, htext⟩
  · rintro ⟨hssid, hpsk, htext⟩
    refine ⟨hssid, hpsk, ?_, ⟨Nat.zero_le _, Nat.zero_le _⟩, iff_of_true rfl rfl⟩
    rw [List.all_append, Bool.and_eq_true]
    exact htext

/-- `radio_config_build2` within its limits. -/
theorem radioConfigBuild2Into_admits {ssid psk : List UInt8}
    (h : Admits 8 false (plainConfig ssid psk)) (out : Sector) :
    radioConfigBuild2Into ssid psk out
      = (true, writeEach (fun _ => 0xff) (radioWrites ssid psk)) := by
  obtain ⟨hssid, hpsk, hssid', hpsk'⟩ := (admits_plain_iff ssid psk).mp h
  have hlens := headWrites_lens ssid psk
  have hcrc : crcLoop (crcLoop (crcLoop 0xffffffff (leBytes 2 ssid.length ++ leBytes 2 psk.length
      ++ leBytes 2 0 ++ leBytes 2 0)) ssid) psk ^^^ 0xffffffff
      = crc32 (plainConfig ssid psk).payload.flatten := by
    rw [← crcLoop_append, ← crcLoop_append, ← crc32_eq]
    congr 1
    simp [RadioConfig.payload, plainConfig]
  unfold radioConfigBuild2Into
  rw [if_neg (by omega), if_neg (by omega), if_neg (not_not.mpr hssid'), if_neg (not_not.mpr hpsk')]
  unfold radioWrites writeEach
  rw [← hcrc, ← hlens, List.foldl_append]
  rfl

/-- And outside of them. -/
theorem radioConfigBuild2Into_refuses {ssid psk : List UInt8}
    (h : ¬Admits 8 false (plainConfig ssid psk)) (out : Sector) :
    radioConfigBuild2Into ssid psk out = (false, out) := by
  rw [admits_plain_iff] at h
  unfold radioConfigBuild2Into
  split
  · rfl
  split
  · rfl
  split
  · rfl
  split
  · rfl
  next h1 h2 h3 h4 =>
    exact absurd ⟨by omega, by omega, not_not.mp h3, not_not.mp h4⟩ h

/-- Two sectors with one record are one. -/
theorem HoldsRecord.unique {t : Sector} (hs : HoldsRecord s magic schema c)
    (ht : HoldsRecord t magic schema c) (hmagic : magic.length = 8) (hschema : schema < 256 ^ 2)
    (htotal : c.total ≤ 4096) : s = t :=
  laid_sector_inj ((laid_pieces_iff hmagic hschema (by omega)).mpr hs)
    ((laid_pieces_iff hmagic hschema (by omega)).mpr ht) (c.pieces_length hmagic htotal)

/-- `radio_config_build2` is inverted by what it wrote. -/
theorem radioConfigBuild2Into_iff (ssid psk : List UInt8) (out : Sector) :
    radioConfigBuild2Into ssid psk out = (true, s) ↔
      Admits 8 false (plainConfig ssid psk) ∧
        HoldsRecord s radioMagic2 2 (plainConfig ssid psk) := by
  constructor
  · intro h
    by_cases hadmits : Admits 8 false (plainConfig ssid psk)
    · rw [radioConfigBuild2Into_admits hadmits] at h
      cases h
      exact ⟨hadmits, radioWrites_hold hadmits⟩
    · rw [radioConfigBuild2Into_refuses hadmits] at h
      cases h
  · rintro ⟨hadmits, hholds⟩
    have htotal := hadmits.total_le
    rw [radioConfigBuild2Into_admits hadmits,
      (radioWrites_hold hadmits).unique hholds rfl (by decide) (by omega)]

-- ============================================================= `pack_sector`

/-- A sector, as bytes. -/
theorem ofFn_eq (s : Sector) : List.ofFn s = bytesAt s 0 4096 := by
  exact ofFn_eq_slice fun i => byteAt_eq s i.isLt

/-- The characters of an ASCII text. -/
def asciiText (bytes : List UInt8) : List Char := bytes.map fun b => Char.ofNat b.toNat

theorem charOfByte_toNat (b : UInt8) : (Char.ofNat b.toNat).toNat = b.toNat := by
  have hlt := b.toNat_lt
  exact Lib.Utf8.toNat_char (.inl (by omega))

theorem encodeAscii_asciiText (bytes : List UInt8) : encodeAscii (asciiText bytes) = bytes := by
  unfold encodeAscii asciiText
  rw [List.map_map]
  refine (List.map_congr_left fun b _ => ?_).trans (List.map_id bytes)
  rw [Function.comp_apply, charOfByte_toNat, UInt8.ofNat_toNat]
  rfl

theorem credentialFormat_iff (bytes : List UInt8) (low high : Nat) :
    credentialFormat (asciiText bytes) low high = true ↔
      (low ≤ bytes.length ∧ bytes.length ≤ high) ∧ bytes.all printable = true := by
  have hchars : ((asciiText bytes).all fun c => decide (32 ≤ c.toNat) && decide (c.toNat ≤ 126))
      = bytes.all printable := by
    unfold asciiText
    rw [List.all_map]
    congr 1
    funext b
    rw [Function.comp_apply, charOfByte_toNat]
    rfl
  unfold credentialFormat
  rw [hchars, show (asciiText bytes).length = bytes.length from List.length_map _,
    Bool.and_eq_true, Bool.and_eq_true, decide_eq_true_iff, decide_eq_true_iff]

/-- The limits of `pack_sector`. -/
theorem admits_packed_iff (ssid psk cert key : List UInt8) :
    Admits 20 true ⟨ssid, psk, cert, key⟩ ↔
      ¬(¬credentialFormat (asciiText ssid) 1 32 = true ∨
        ¬credentialFormat (asciiText psk) 20 63 = true) ∧
      (1 ≤ cert.length ∧ cert.length ≤ 2048) ∧ 1 ≤ key.length ∧ key.length ≤ 1024 := by
  rw [not_or, not_not, not_not, credentialFormat_iff, credentialFormat_iff]
  constructor
  · intro h
    have htext := h.printable
    rw [List.all_append, Bool.and_eq_true] at htext
    obtain ⟨hcert, hkey⟩ : 1 ≤ cert.length ∧ 1 ≤ key.length := h.certs
    exact ⟨⟨⟨h.ssid, htext.1⟩, h.psk, htext.2⟩, ⟨hcert, h.cert.1⟩, hkey, h.cert.2⟩
  · rintro ⟨⟨⟨hssid, htext⟩, hpsk, htext'⟩, ⟨hcert, hcert'⟩, hkey, hkey'⟩
    refine ⟨hssid, hpsk, ?_, ⟨hcert', hkey'⟩, hcert, hkey⟩
    rw [List.all_append, Bool.and_eq_true]
    exact ⟨htext, htext'⟩

theorem packedPayload_eq (c : RadioConfig) :
    [c.ssid, c.psk, c.cert, c.key].flatMap (fun part : List UInt8 => leBytes 2 part.length)
      ++ [c.ssid, c.psk, c.cert, c.key].flatten = c.payload.flatten := by
  simp [RadioConfig.payload]

/-- `pack_sector` writes the pieces of its record. -/
theorem packSector_iff (ssid psk cert key : List UInt8) :
    packSector (asciiText ssid) (asciiText psk) cert key = some (List.ofFn s) ↔
      Admits 20 true ⟨ssid, psk, cert, key⟩ ∧
        HoldsRecord s radioMagic1 1 ⟨ssid, psk, cert, key⟩ := by
  have hpayload := packedPayload_eq ⟨ssid, psk, cert, key⟩
  have hadmits := admits_packed_iff ssid psk cert key
  dsimp only at hpayload
  generalize hc : (⟨ssid, psk, cert, key⟩ : RadioConfig) = c at hpayload hadmits ⊢
  have hend : 16 + c.payload.flatten.length = c.total := by
    have := c.sixteen_le
    rw [c.payload_length]
    omega
  have hpieces : radioMagic1 ++ (leBytes 2 1 ++ leBytes 2 c.total
      ++ leBytes 4 (crc32 c.payload.flatten).toNat) ++ c.payload.flatten
      ++ List.replicate (4096 - c.total) 255 = (c.pieces radioMagic1 1).flatten := by
    simp [RadioConfig.pieces]
  have hbytes : Admits 20 true c →
      ((c.pieces radioMagic1 1).flatten = List.ofFn s ↔ HoldsRecord s radioMagic1 1 c) := by
    intro h
    have htotal := h.total_le
    rw [← laid_pieces_iff rfl (by decide) (by omega), laid_iff,
      RadioConfig.pieces_length rfl (by omega), ofFn_eq]
    exact eq_comm
  unfold packSector
  dsimp only
  simp only [Option.ite_none_left_eq_some, encodeAscii_asciiText, Option.some.injEq, not_not,
    hpayload, hend, hpieces]
  constructor
  · rintro ⟨hformat, hcert, hkey, heq⟩
    have h := hadmits.mpr ⟨hformat, hcert, hkey⟩
    exact ⟨h, (hbytes h).mp heq⟩
  · rintro ⟨h, hholds⟩
    obtain ⟨hformat, hcert, hkey⟩ := hadmits.mp h
    exact ⟨hformat, hcert, hkey, (hbytes h).mpr hholds⟩

-- ================================================================ the reads

theorem getElem?_ofFn {s : Sector} {i : Nat} (h : i < 4096) :
    (List.ofFn s)[i]? = some (byteAt s i) := by
  rw [List.getElem?_ofFn, dif_pos h, byteAt_eq s h]

theorem readAt_ofFn {s : Sector} {i n : Nat} (h : i + n ≤ 4096) :
    readAt (List.ofFn s) i n = some (bytesAt s i n) := by
  unfold readAt
  rw [List.length_ofFn, if_pos h, ofFn_eq, bytesAt_eq, take_drop_slice _ h, Nat.zero_add]
  rfl

theorem le16At_ofFn {s : Sector} {i : Nat} (h : i + 2 ≤ 4096) :
    le16At (List.ofFn s) i = some (leAt s i 2) := by
  unfold le16At
  rw [readAt_ofFn h, leAt_eq]
  rfl

/-- A loop of the parser, over bytes that are there. -/
theorem allFrom_ofFn (p : UInt8 → Bool) {s : Sector} (n : Nat) : ∀ {i : Nat}, i + n ≤ 4096 →
    allFrom p (List.ofFn s) i (i + n) = some ((bytesAt s i n).all p) := by
  induction n with
  | zero =>
      intro i _
      rw [allFrom, if_neg (by omega)]
      rfl
  | succ n ih =>
      intro i h
      have htail := @ih (i + 1) (by omega)
      rw [Nat.add_right_comm, Nat.add_assoc] at htail
      rw [allFrom, if_pos (by omega), getElem?_ofFn (by omega), bytesAt_eq, slice_succ,
        List.all_cons]
      dsimp only
      rw [htail]
      cases p (byteAt s i) <;> rfl

/-- The CRC's loop likewise. -/
theorem crcFrom_ofFn {s : Sector} (n : Nat) : ∀ {i : Nat} (crc : UInt32), i + n ≤ 4096 →
    crcFrom (List.ofFn s) i (i + n) crc = some (crcLoop crc (bytesAt s i n)) := by
  induction n with
  | zero =>
      intro i crc _
      rw [crcFrom, if_neg (by omega)]
      rfl
  | succ n ih =>
      intro i crc h
      have htail := @ih (i + 1) (crcLoop crc [byteAt s i]) (by omega)
      rw [Nat.add_right_comm, Nat.add_assoc] at htail
      rw [crcFrom, if_pos (by omega), getElem?_ofFn (by omega), bytesAt_eq, slice_succ]
      dsimp only
      rw [htail, ← crcLoop_append]
      rfl

/-- What is left in `*out` of a record, or of none. -/
def RadioConfig.out (c : RadioConfig) : RadioConfigOut where
  ssid := cString 33 c.ssid
  psk := cString 64 c.psk
  cert := some (24 + c.ssid.length + c.psk.length)
  key := some (24 + c.ssid.length + c.psk.length + c.cert.length)
  certLen := c.cert.length
  keyLen := c.key.length

def parsed (config : Option RadioConfig) : Bool × RadioConfigOut :=
  (config.isSome, (config.map RadioConfig.out).getD radioConfigOutZero)

/-- A test that both make. -/
theorem refuse_eq {P : Prop} [Decidable P] {x : Option (Bool × RadioConfigOut)}
    {y : Option RadioConfig} (h : ¬P → x = some (parsed y)) :
    (if P then some (false, radioConfigOutZero) else x)
      = some (parsed (if P then none else y)) := by
  by_cases hP : P
  · rw [if_pos hP, if_pos hP]
    rfl
  · rw [if_neg hP, if_neg hP, h hP]

/-- The parser does not read beyond a sector, and is `parseCommon`. -/
theorem parseCommonChecked_eq (s : Sector) (magic : List UInt8) (schema pskMin : Nat)
    (certsMandatory : Bool) :
    parseCommonChecked (some (List.ofFn s)) radioSectorSize magic schema pskMin certsMandatory
      = some (parsed
        (parseCommon (some s) radioSectorSize magic schema pskMin certsMandatory)) := by
  unfold parseCommonChecked parseCommon
  dsimp only
  rw [if_neg (not_not.mpr rfl), if_neg (not_not.mpr rfl), readAt_ofFn (by decide),
    le16At_ofFn (by decide), le16At_ofFn (by decide), le16At_ofFn (by decide),
    le16At_ofFn (by decide), le16At_ofFn (by decide), le16At_ofFn (by decide),
    readAt_ofFn (by decide)]
  simp only [Option.bind_eq_bind, Option.bind_some]
  by_cases hmagic : bytesAt s 0 8 = magic
  swap
  · rw [if_pos hmagic, if_pos (.inl hmagic)]
    rfl
  by_cases hschema : leAt s 8 2 = schema
  swap
  · rw [if_neg (not_not.mpr hmagic), if_pos hschema, if_pos (.inr hschema)]
    rfl
  rw [if_neg (not_not.mpr hmagic), if_neg (not_not.mpr hschema),
    if_neg (not_or.mpr ⟨not_not.mpr hmagic, not_not.mpr hschema⟩)]
  refine refuse_eq fun _ => refuse_eq fun _ => refuse_eq fun _ => refuse_eq fun hsum =>
    refuse_eq fun htotal => ?_
  obtain ⟨hlen, -⟩ := not_or.mp htotal
  rw [not_not.mp hlen]
  generalize leAt s 16 2 = a at hsum ⊢
  generalize leAt s 18 2 = b at hsum ⊢
  generalize leAt s 20 2 = c at hsum ⊢
  generalize leAt s 22 2 = d at hsum ⊢
  unfold radioSectorSize at hsum ⊢
  have htext := @allFrom_ofFn printable s (a + b) 24 (by omega)
  have herased := @allFrom_ofFn (· == 255) s (4096 - (24 + a + b + c + d)) (24 + a + b + c + d)
    (by omega)
  have hcrc := @crcFrom_ofFn s (24 + a + b + c + d - 16) 16 0xffffffff (by omega)
  rw [← Nat.add_assoc] at htext
  rw [Nat.add_sub_cancel' (by omega)] at herased hcrc
  rw [htext, herased, hcrc, readAt_ofFn (by omega), readAt_ofFn (by omega)]
  simp only [Option.bind_some, ← crc32_eq, ← leAt_eq]
  refine refuse_eq fun _ => refuse_eq fun _ => refuse_eq fun _ => ?_
  simp only [parsed, RadioConfig.out, Option.isSome_some, Option.map_some, Option.getD_some,
    bytesAt_length]

-- =============================================================== exactness

/-- The radio record's codec is exact. `radio_config_build2` succeeds
within its limits, and else leaves `out` as it is. A sector is read by
`radio_config_parse2` as a ssid and a psk without certificates if and only
if it is what `radio_config_build2` makes of the two, and by
`radio_config_parse` as four fields if and only if it is what
`pack_sector` makes of them. Neither parser reads beyond a sector, and one
that fails leaves zeros. -/
theorem radio_codec_exact :
    (∀ ssid psk out,
      ((radioConfigBuild2Into ssid psk out).1 = true ↔
        (1 ≤ ssid.length ∧ ssid.length ≤ 32) ∧ (8 ≤ psk.length ∧ psk.length ≤ 63) ∧
          ssid.all printable = true ∧ psk.all printable = true) ∧
      ((radioConfigBuild2Into ssid psk out).1 = false →
        (radioConfigBuild2Into ssid psk out).2 = out)) ∧
    (∀ s ssid psk out,
      radioConfigParse2 (some s) radioSectorSize = some ⟨ssid, psk, [], []⟩ ↔
        radioConfigBuild2Into ssid psk out = (true, s)) ∧
    (∀ s ssid psk cert key,
      radioConfigParse (some s) radioSectorSize = some ⟨ssid, psk, cert, key⟩ ↔
        packSector (asciiText ssid) (asciiText psk) cert key = some (List.ofFn s)) ∧
    ∀ s : Sector,
      radioConfigParseChecked (some (List.ofFn s)) radioSectorSize
        = some (parsed (radioConfigParse (some s) radioSectorSize)) ∧
      radioConfigParse2Checked (some (List.ofFn s)) radioSectorSize
        = some (parsed (radioConfigParse2 (some s) radioSectorSize)) ∧
      parsed none = (false, radioConfigOutZero) := by
  refine ⟨fun ssid psk out => ?_, fun s ssid psk out => ?_, fun s ssid psk cert key => ?_,
    fun s => ⟨parseCommonChecked_eq s _ _ _ _, parseCommonChecked_eq s _ _ _ _, rfl⟩⟩
  · rw [← admits_plain_iff]
    by_cases hadmits : Admits 8 false (plainConfig ssid psk)
    · rw [radioConfigBuild2Into_admits hadmits]
      exact ⟨iff_of_true rfl hadmits, fun h => (by cases h)⟩
    · rw [radioConfigBuild2Into_refuses hadmits]
      exact ⟨iff_of_false Bool.false_ne_true hadmits, fun _ => rfl⟩
  · rw [radioConfigBuild2Into_iff]
    exact parseCommon_iff
  · rw [packSector_iff]
    exact parseCommon_iff

end PicoBridge
