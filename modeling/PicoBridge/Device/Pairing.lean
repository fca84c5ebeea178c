/-
The header that `noise_ik_provision.py` writes for the firmware, and
`header_key`, which reads a key of it.

# What is modelled how

- `re.search` tries the places of the text from the first; the names are
  plain, and the group runs up to the first closing brace, which no other
  run of the pattern can do.
- A device is built with what `header_key` reads of its header.

# The pair

One run of the tool writes both halves of two key pairs, as C and as JSON.
A device built with the one and a host with the other complete a handshake
(`provisioned_pair_meets`).
-/
import PicoBridge.Noise.Bundle
import PicoBridge.Device.Revoke

namespace PicoBridge

open Lib.Json
open Lib.Procedure

-- =============================================================== the writer

/-- `f"0x{byte:02x}"`. -/
def hexByte (b : UInt8) : Text := [48, 120, hexDigit (b.toNat / 16), hexDigit (b.toNat % 16)]

/-- `", ".join`. -/
def rows : List UInt8 → Text
  | [] => []
  | [b] => hexByte b
  | b :: bs => hexByte b ++ [44, 32] ++ rows bs

/-- `_array`, behind the name. -/
def arrayBody (value : Key) : Text := [32] ++ rows value.toList ++ [32]

/-- `_array`. -/
def array (name : Text) (value : Key) : Text :=
  text "static const uint8_t " ++ (name ++ text "[32] = \x7b" ++
    (arrayBody value ++ text "\x7d;"))

def deviceName : Text := text "PICO_BRIDGE_DEVICE_STATIC_PRIVATE"

def authorizedName : Text := text "PICO_BRIDGE_AUTHORIZED_INITIATOR_PUBLIC"

def headerTop : Text :=
  text "/* Generated by tools/noise_ik_provision.py. Keep private; never commit. */\n" ++
    text "#ifndef PICO_BRIDGE_NOISE_IK_KEYS_H\n#define PICO_BRIDGE_NOISE_IK_KEYS_H\n" ++
    text "#include <stdint.h>\n"

/-- `_firmware_header`. -/
def firmwareHeader (devicePrivate authorizedInitiatorPublic : Key) : Text :=
  headerTop ++ (array deviceName devicePrivate ++ (text "\n" ++
    (array authorizedName authorizedInitiatorPublic ++ text "\n#endif\n")))

-- =============================================================== the reader

/-- The pattern at one place: the group up to the closing brace. -/
def matchArray (name s : Text) : Option Text :=
  let opening := name ++ text "[32] = \x7b"
  if opening <+: s then
    let group := (s.drop opening.length).takeWhile (· ≠ 125)
    let rest := (s.drop opening.length).dropWhile (· ≠ 125)
    if group ≠ [] ∧ text "\x7d;" <+: rest then some group else none
  else none

/-- `re.search`. -/
def searchArray (name : Text) : Text → Option Text
  | [] => none
  | c :: s =>
      match matchArray name (c :: s) with
      | some group => some group
      | none => searchArray name s

/-- `0x([0-9a-fA-F]{2})` at one place. -/
def hexAt : Text → Option UInt8
  | 48 :: 120 :: a :: b :: _ => do
      let a ← hexValue a
      let b ← hexValue b
      some (UInt8.ofNat (16 * a + b))
  | _ => none

/-- `re.findall`, with so many characters of the last match to come. -/
def findBytes : Nat → Text → List UInt8
  | _, [] => []
  | skip + 1, _ :: s => findBytes skip s
  | 0, c :: s =>
      match hexAt (c :: s) with
      | some b => b :: findBytes 3 s
      | none => findBytes 0 s

/-- `header_key`. -/
def headerKey (header name : Text) : Except String (List UInt8) :=
  match searchArray name header with
  | none => .error "missing header key"
  | some group =>
      let values := findBytes 0 group
      if values.length ≠ 32 then .error "invalid header key" else .ok values

-- ================================================================= the bytes

theorem hexValue_hexDigit {d : Nat} (h : d < 16) : hexValue (hexDigit d) = some d := by
  unfold hexDigit hexValue
  by_cases hd : d < 10
  · rw [if_pos hd, if_pos (by omega), Nat.add_sub_cancel_left]
  · rw [if_neg hd, if_neg (by omega), if_pos (by omega), Nat.add_sub_cancel_left]

theorem findBytes_hexByte (b : UInt8) (s : Text) :
    findBytes 0 (hexByte b ++ s) = b :: findBytes 0 s := by
  have hlt := b.toNat_lt
  have hhex : hexAt (hexByte b ++ s) = some b := by
    show (do
      let x ← hexValue (hexDigit (b.toNat / 16))
      let y ← hexValue (hexDigit (b.toNat % 16))
      some (UInt8.ofNat (16 * x + y))) = some b
    rw [hexValue_hexDigit (by omega), hexValue_hexDigit (by omega)]
    show some (UInt8.ofNat (16 * (b.toNat / 16) + b.toNat % 16)) = some b
    rw [Nat.div_add_mod, UInt8.ofNat_toNat]
  have hcons : hexByte b ++ s
      = 48 :: 120 :: hexDigit (b.toNat / 16) :: hexDigit (b.toNat % 16) :: s := rfl
  rw [hcons] at hhex ⊢
  rw [findBytes, hhex]
  rfl

theorem findBytes_rows (bs : List UInt8) : findBytes 0 (rows bs ++ [32]) = bs := by
  induction bs with
  | nil => rfl
  | cons b bs ih =>
      cases bs with
      | nil =>
          rw [rows, findBytes_hexByte]
          rfl
      | cons b' bs =>
          rw [rows, List.append_assoc, List.append_assoc, findBytes_hexByte]
          · exact congrArg (b :: ·) ih
          · simp

theorem findBytes_arrayBody (value : Key) : findBytes 0 (arrayBody value) = value.toList :=
  findBytes_rows value.toList

/-- What neither begins a name nor ends a group. -/
def RowChar (c : Nat) : Prop := c ≠ 80 ∧ c ≠ 125 ∧ c < 128

instance : DecidablePred RowChar := fun _ => inferInstanceAs (Decidable (_ ∧ _))

theorem hexByte_chars (b : UInt8) : ∀ c ∈ hexByte b, RowChar c := by
  intro c hc
  have hlt := b.toNat_lt
  have hdigit : ∀ d, d < 16 → RowChar (hexDigit d) := by decide
  simp only [hexByte, List.mem_cons, List.not_mem_nil, or_false] at hc
  rcases hc with rfl | rfl | rfl | rfl
  · decide
  · decide
  · exact hdigit _ (by omega)
  · exact hdigit _ (by omega)

theorem rows_chars (bs : List UInt8) : ∀ c ∈ rows bs, RowChar c := by
  induction bs with
  | nil => exact fun c hc => absurd hc List.not_mem_nil
  | cons b bs ih =>
      cases bs with
      | nil => exact hexByte_chars b
      | cons b' bs =>
          rw [rows, List.forall_mem_append, List.forall_mem_append]
          · exact ⟨⟨hexByte_chars b, by decide⟩, ih⟩
          · simp

theorem arrayBody_chars (value : Key) : ∀ c ∈ arrayBody value, RowChar c := by
  unfold arrayBody
  rw [List.forall_mem_append, List.forall_mem_append]
  exact ⟨⟨by decide, rows_chars value.toList⟩, by decide⟩

-- =============================================================== the search

/-- The pattern's opening cannot begin in a text, whatever follows it. -/
def Clear (p x : Text) : Prop := ∀ k < x.length, ¬p <+: x.drop k ∧ ¬x.drop k <+: p

instance (p x : Text) : Decidable (Clear p x) :=
  inferInstanceAs (Decidable (∀ k < x.length, _))

theorem clear_of_first {a : Nat} {p x : Text} (h : ∀ c ∈ x, c ≠ a) : Clear (a :: p) x := by
  intro k hk
  have hdrop := List.drop_eq_getElem_cons hk
  have hne := h x[k] (List.getElem_mem hk)
  rw [hdrop]
  constructor
  · intro hpre
    exact hne (List.cons_prefix_cons.mp hpre).1.symm
  · intro hpre
    exact hne (List.cons_prefix_cons.mp hpre).1

theorem matchArray_clear {name x : Text} (y : Text)
    (hclear : Clear (name ++ text "[32] = \x7b") x) {k : Nat} (hk : k < x.length) :
    matchArray name (x.drop k ++ y) = none := by
  unfold matchArray
  dsimp only
  rw [if_neg]
  intro hpre
  rcases List.prefix_or_prefix_of_prefix hpre (List.prefix_append (x.drop k) y) with h | h
  · exact (hclear k hk).1 h
  · exact (hclear k hk).2 h

theorem Clear.tail {p x : Text} {c : Nat} (h : Clear p (c :: x)) : Clear p x := by
  intro k hk
  exact h (k + 1) (Nat.succ_lt_succ hk)

/-- The search goes past what is clear of its opening. -/
theorem searchArray_clear {name : Text} (y : Text) : ∀ {x : Text},
    Clear (name ++ text "[32] = \x7b") x → searchArray name (x ++ y) = searchArray name y := by
  intro x
  induction x with
  | nil => exact fun _ => rfl
  | cons c x ih =>
      intro hclear
      have hnone := matchArray_clear y hclear (Nat.zero_lt_succ x.length)
      rw [List.drop_zero, List.cons_append] at hnone
      rw [List.cons_append, searchArray, hnone]
      exact ih hclear.tail

/-- It stops at an array of that name. -/
theorem searchArray_found {name : Text} (hname : name ≠ []) (value : Key) (y : Text) :
    searchArray name (name ++ text "[32] = \x7b" ++ (arrayBody value ++ text "\x7d;") ++ y)
      = some (arrayBody value) := by
  obtain ⟨c, rest, rfl⟩ := List.exists_cons_of_ne_nil hname
  have hplain : ∀ c ∈ arrayBody value, decide (c ≠ 125) = true :=
    fun c hc => decide_eq_true (arrayBody_chars value c hc).2.1
  have hmatch : matchArray (c :: rest)
      ((c :: rest) ++ text "[32] = \x7b" ++ (arrayBody value ++ text "\x7d;") ++ y)
      = some (arrayBody value) := by
    unfold matchArray
    dsimp only
    rw [List.append_assoc, if_pos (List.prefix_append _ _), List.drop_left, List.append_assoc,
      List.takeWhile_append_of_pos hplain, List.dropWhile_append_of_pos hplain]
    have htake : (text "\x7d;" ++ y).takeWhile (fun c => decide (c ≠ 125)) = [] := rfl
    have hdrop : (text "\x7d;" ++ y).dropWhile (fun c => decide (c ≠ 125))
        = text "\x7d;" ++ y := rfl
    rw [htake, hdrop, List.append_nil, if_pos ⟨List.cons_ne_nil _ _, List.prefix_append _ _⟩]
  have hcons : (c :: rest) ++ text "[32] = \x7b" ++ (arrayBody value ++ text "\x7d;") ++ y
      = c :: (rest ++ text "[32] = \x7b" ++ (arrayBody value ++ text "\x7d;") ++ y) := rfl
  rw [hcons] at hmatch ⊢
  rw [searchArray, hmatch]

theorem headerKey_found {header name : Text} {value : Key}
    (h : searchArray name header = some (arrayBody value)) :
    headerKey header name = .ok value.toList := by
  unfold headerKey
  rw [h]
  dsimp only
  rw [findBytes_arrayBody, if_neg (by simp)]

/-- Neither name is in the constant text around the arrays. -/
theorem constants_clear : ∀ name ∈ [deviceName, authorizedName],
    Clear (name ++ text "[32] = \x7b") headerTop ∧
      Clear (name ++ text "[32] = \x7b") (text "static const uint8_t ") := by
  decide +kernel

/-- The first array does not begin like the second. -/
theorem first_clear (value : Key) :
    let opening := authorizedName ++ text "[32] = \x7b"
    Clear opening (deviceName ++ text "[32] = \x7b") ∧ Clear opening (arrayBody value) ∧
      Clear opening (text "\x7d;") ∧ Clear opening (text "\n") := by
  intro opening
  have hfirst : opening = 80 :: opening.tail := by decide +kernel
  refine ⟨by decide +kernel, ?_, by decide +kernel, by decide +kernel⟩
  rw [hfirst]
  exact clear_of_first fun c hc => (arrayBody_chars value c hc).1

/-- Both keys come back. -/
theorem headerKey_firmwareHeader (devicePrivate authorizedInitiatorPublic : Key) :
    headerKey (firmwareHeader devicePrivate authorizedInitiatorPublic) deviceName
        = .ok devicePrivate.toList ∧
      headerKey (firmwareHeader devicePrivate authorizedInitiatorPublic) authorizedName
        = .ok authorizedInitiatorPublic.toList := by
  have hstatic : ∀ (name rest : Text) (value : Key), array name value ++ rest
      = text "static const uint8_t " ++
        (name ++ text "[32] = \x7b" ++ (arrayBody value ++ text "\x7d;") ++ rest) := by
    intro name rest value
    unfold array
    simp only [List.append_assoc]
  constructor
  · obtain ⟨htop, hconst⟩ := constants_clear deviceName (by simp)
    apply headerKey_found
    unfold firmwareHeader
    rw [hstatic, searchArray_clear _ htop, searchArray_clear _ hconst,
      searchArray_found (by decide)]
  · -- the search for the second goes past the first, whatever bytes it has
    obtain ⟨htop, hconst⟩ := constants_clear authorizedName (by simp)
    obtain ⟨hname, hbody, hend, hline⟩ := first_clear devicePrivate
    have hsplit : ∀ rest : Text, deviceName ++ text "[32] = \x7b" ++
        (arrayBody devicePrivate ++ text "\x7d;") ++ rest
        = (deviceName ++ text "[32] = \x7b") ++
          (arrayBody devicePrivate ++ (text "\x7d;" ++ rest)) := by
      intro rest
      simp only [List.append_assoc]
    apply headerKey_found
    unfold firmwareHeader
    rw [hstatic, searchArray_clear _ htop, searchArray_clear _ hconst, hsplit,
      searchArray_clear _ hname, searchArray_clear _ hbody, searchArray_clear _ hend,
      searchArray_clear _ hline, hstatic, searchArray_clear _ hconst,
      searchArray_found (by decide)]

/-- `encode("ascii")` loses nothing of it. -/
theorem firmwareHeader_ascii (devicePrivate authorizedInitiatorPublic : Key) :
    ∀ c ∈ firmwareHeader devicePrivate authorizedInitiatorPublic, c < 128 := by
  have harray : ∀ name ∈ [deviceName, authorizedName], ∀ value : Key,
      ∀ c ∈ array name value, c < 128 := by
    intro name hname value
    have hchars : ∀ name ∈ [deviceName, authorizedName], ∀ c ∈ name, c < 128 := by
      decide +kernel
    unfold array
    simp only [List.forall_mem_append]
    exact ⟨by decide +kernel, ⟨hchars name hname, by decide +kernel⟩,
      fun c hc => (arrayBody_chars value c hc).2.2, by decide +kernel⟩
  unfold firmwareHeader
  simp only [List.forall_mem_append]
  exact ⟨by decide +kernel, harray _ (by simp) _, by decide +kernel, harray _ (by simp) _,
    by decide +kernel⟩

/-- `firmware_header.encode("ascii")`. -/
def headerBytes (devicePrivate authorizedInitiatorPublic : Key) : List UInt8 :=
  (firmwareHeader devicePrivate authorizedInitiatorPublic).map UInt8.ofNat

theorem headerBytes_text (devicePrivate authorizedInitiatorPublic : Key) :
    (headerBytes devicePrivate authorizedInitiatorPublic).map UInt8.toNat
      = firmwareHeader devicePrivate authorizedInitiatorPublic := by
  unfold headerBytes
  rw [List.map_map]
  refine (List.map_congr_left fun c hc => ?_).trans (List.map_id _)
  have hlt := firmwareHeader_ascii devicePrivate authorizedInitiatorPublic c hc
  exact UInt8.toNat_ofNat_of_lt' (show c < 256 by omega)

-- ================================================================= the pair

/-- `noise_ik_init` with a private key, where every call returns. -/
theorem bootNoise_identity {lib : Crypto} (hlib : lib.Lawful) {d D : Key}
    (hd : lib.KeyPair d D) : Identity (bootNoise lib d) d D := by
  obtain ⟨t, ht⟩ := start_returns hlib D
  obtain ⟨ctx, hreset, -, hframe⟩ :=
    @ctx_start lib { noiseIkCtxZero with
      controllersSet := true, deviceStaticPriv := d, deviceStaticPub := D } t ht
  have hinit : noiseIkInit lib d = .ok () ctx := by
    unfold noiseIkInit
    rw [show x25519Dh lib d basepoint = some D from hd]
    exact hreset
  unfold bootNoise
  rw [hinit]
  exact ⟨hframe.priv, hframe.pub, hframe.set⟩

/-- The first boot enrols the initiator in slot 1, as an admin. -/
theorem imported_find (p : Provisioning) :
    controllerStoreFind p.imported p.initiator = .ok (1, controllerRoleAdmin) := by
  have hslot : p.imported.slots 1 = ⟨controllerRoleAdmin, p.initiator⟩ := rewrite_self _ _ _
  have hadmin : controllerRoleAdmin ≠ controllerRoleNone := by decide
  have hused : (p.imported.slots 1).used := by
    rw [hslot]
    exact hadmin
  obtain ⟨⟨i, role⟩, hfind⟩ := controllerStoreFind_isOk.mpr
    (⟨1, hused, by rw [hslot]⟩ : p.imported.Enrolled p.initiator)
  obtain ⟨hi, hkey, hrole⟩ := controllerStoreFind_ok hfind
  have hone : i = 1 := by
    apply (imported_rosterOk p).distinct i 1 hi hused
    rw [hkey, hslot]
  rw [hone, hslot] at hrole
  rw [hfind, hone, hrole]

variable {lib : Crypto}

/-- `write_bundle` of a `generate_bundle`, which is what the tool does. -/
def enroll (t : Target) (device initiator : X25519PrivateKey lib) :
    EStateM WriteError Writing Unit :=
  writeNoiseDirectory t (some (headerBytes device.priv initiator.pub)) device initiator

/-- A handshake of the two completes, with the host in slot 1 as an admin. -/
def Meets (lib : Crypto) (hostPrivate pin : Key) (d : Device) (e e' E' : Key) : Prop :=
  ∃ host host' message response host'' noise,
    NoiseIKInitiator.new lib hostPrivate pin = some host ∧
    beginHandshake lib e host = .ok message host' ∧
    noiseIkHandshakeRespond lib d.controllers (some (e', E')) message noiseIkResponseLen d.noise
      = (some response, noise) ∧
    completeHandshake lib response host' = .ok () host'' ∧ Paired host'' noise ∧
    noise.authenticatedSlot = 1 ∧ noise.authenticatedRole = controllerRoleAdmin

/-- The two halves meet. -/
theorem booted_meets (hlib : lib.Lawful) (p : Provisioning)
    (device initiator : X25519PrivateKey lib) (hp : p.initiator = initiator.pub)
    {flash : StoreFlash} (hflash : Fine p flash) (radio : Sector) :
    ∃ d, bootPower lib ⟨p.recovery, initiator.pub, device.priv⟩ (.off flash radio) .ok .ok
        = .on d ∧
      ∀ e E e' E', lib.KeyPair e E → lib.KeyPair e' E' →
        Meets lib initiator.priv device.pub d e e' E' := by
  have hsetup := setup_fine p hflash
  rcases hboot : controllerSetup flash p.recovery p.initiator .ok .ok with ⟨controllers, store⟩
  rw [hboot] at hsetup
  cases hsetup
  rw [hp] at hboot
  refine ⟨_, bootPower_on hboot, fun e E e' E' he he' => ?_⟩
  have hfind := imported_find p
  rw [hp] at hfind
  obtain ⟨c, _, _, host, host', hopened⟩ := host_opens hlib initiator.pair he device.pub
  obtain ⟨response, noise, host'', hrespond, -, hslot, hrole, hcomplete, hpaired⟩ :=
    hopened.answered hlib device.pair initiator.pair he he'
      (bootNoise_identity hlib device.pair) (Nat.le_refl _) hfind
  exact ⟨host, host', _, response, host'', noise, hopened.created, hopened.begun, hrespond,
    hcomplete, hpaired, hslot, hrole⟩

/-- What one run of `noise_ik_provision` writes is a pair: the header has
the device's private key and the initiator's public one, the identity file
the other two halves. Build a device with the first and give a host the
second: from erased flash, from flash with the seed alone and from flash
that is set up, the device boots, and every handshake of the two completes,
with the host in slot 1 as an admin. -/
theorem provisioned_pair_meets (hlib : lib.Lawful)
    (decodeOther : List UInt8 → Option Text) {t : Target} {s₀ s : Writing}
    {device initiator : X25519PrivateKey lib} (hrun : enroll t device initiator s₀ = .ok () s)
    {p : Provisioning} (hp : p.initiator = initiator.pub) :
    ∃ header identity,
      s.file? t (text "noise_ik_keys.h") = some header ∧
      s.file? t (text "noise-ik.json") = some identity ∧
      headerKey (header.bytes.map UInt8.toNat) deviceName = .ok device.priv.toList ∧
      headerKey (header.bytes.map UInt8.toNat) authorizedName = .ok initiator.pub.toList ∧
      loadNoiseIdentity decodeOther t.euid (some identity)
        = .ok (initiator.priv.toList, device.pub.toList) ∧
      ∀ flash radio, Fine p flash →
        ∃ d, bootPower lib ⟨p.recovery, initiator.pub, device.priv⟩ (.off flash radio) .ok .ok
            = .on d ∧
          ∀ e E e' E', lib.KeyPair e E → lib.KeyPair e' E' →
            Meets lib initiator.priv device.pub d e e' E' := by
  obtain ⟨fs, hfs, hmade⟩ :=
    (writeNoiseDirectory_result t _ device initiator s₀).made hrun
  cases hfs
  obtain ⟨hdevice, hauthorized⟩ := headerKey_firmwareHeader device.priv initiator.pub
  rw [← headerBytes_text] at hdevice hauthorized
  have hheader : s.file? t (text "noise_ik_keys.h")
      = some (createFile t.euid t.umask 0o600 (headerBytes device.priv initiator.pub)) :=
    hmade.file _
  have hidentity : s.file? t (text "noise-ik.json")
      = some (writeBundle t.euid t.umask device initiator) := hmade.file _
  refine ⟨_, _, hheader, hidentity, hdevice, hauthorized, ?_, ?_⟩
  · exact load_writeBundle decodeOther t.euid t.umask device initiator
  · intro flash radio hflash
    exact booted_meets hlib p device initiator hp hflash radio

def enrollBench : EStateM WriteError Writing Unit :=
  enroll benchTarget (.generated (tagKey 1)) (.generated (tagKey 6))

theorem provisioned_pair_meets_bench :
    ∃ d : Device, bootPower (toyCrypto none) ⟨benchProvisioning.recovery, toyPublic (tagKey 6),
        tagKey 1⟩ (.off erasedFlash erasedSector) .ok .ok = .on d ∧
      Meets (toyCrypto none) (tagKey 6) (toyPublic (tagKey 1)) d (tagKey 3) (tagKey 4)
        (toyPublic (tagKey 4)) := by
  have hreturns : returns enrollBench (emptyParent [] []) = true := by decide +kernel
  have hpair : ∀ n, (toyCrypto none).KeyPair (tagKey n) (toyPublic (tagKey n)) := fun _ => rfl
  obtain ⟨_, _, -, -, -, -, -, hboot⟩ :=
    @provisioned_pair_meets (toyCrypto none) toyCrypto_lawful (fun _ => none) benchTarget
      (emptyParent [] []) (leaves enrollBench (emptyParent [] [])) (.generated (tagKey 1))
      (.generated (tagKey 6)) (returns_leaves hreturns) benchProvisioning rfl
  obtain ⟨d, hd, hmeets⟩ := hboot erasedFlash erasedSector .erased
  exact ⟨d, hd, hmeets _ _ _ _ (hpair 3) (hpair 4)⟩

end PicoBridge
