/-
The cryptographic library calls of `firmware/noise_ik.c` and
`tools/pico_bridge_ctl.py`, as parameters.

# What is modelled how

- `Crypto` holds one function per primitive. The firmware calls it
  through mbedTLS and the host through hashlib, hmac and cryptography;
  both get the same function, and `none` is a return code other than 0
  there and an exception here.
- `mbedtls_hkdf` (no info, 64 bytes out) and HMAC-SHA-256 are separate
  parameters, because the firmware derives keys with the one and the host
  spells the derivation out with the other. That the two agree is RFC 5869
  (`Crypto.Lawful.hkdf_rfc5869`).
- `scalarmult` takes a clamped scalar: the firmware clamps by hand, the
  host's library clamps inside `exchange` and `public_key`.
- An AEAD ciphertext carries its 16-byte tag at the end.
-/
import PicoBridge.Lib.Noise
import PicoBridge.Store.Record

namespace PicoBridge

open Lib.Noise (Suite)

-- ============================================================ the calls

/-- The library calls. -/
structure Crypto where
  sha256 : List UInt8 → Option Key
  hmac : Key → List UInt8 → Option Key
  hkdf : Key → List UInt8 → Option (Key × Key)
  scalarmult : Key → Key → Option Key
  encrypt : Key → List UInt8 → List UInt8 → List UInt8 → Option (List UInt8)
  decrypt : Key → List UInt8 → List UInt8 → List UInt8 → Option (List UInt8)

/-- The scalar clamping of RFC 7748. -/
def clamp (priv : Key) : Key :=
  (priv.set 0 (priv[0] &&& 0xf8)).set 31 ((priv[31] &&& 0x7f) ||| 0x40)

/-- `basepoint`: 9, little-endian. -/
def basepoint : Key := Vector.ofFn fun i => if i = 0 then 9 else 0

/-- `HKDF-SHA-256(salt, ikm, info = "", L = 64)` of RFC 5869, by HMAC. -/
def Crypto.extractExpand (lib : Crypto) (salt : Key) (ikm : List UInt8) :
    Option (Key × Key) := do
  let prk ← lib.hmac salt ikm
  let t1 ← lib.hmac prk [1]
  let t2 ← lib.hmac prk (t1.toList ++ [2])
  some (t1, t2)

/-- A private key and its public key. -/
def Crypto.KeyPair (lib : Crypto) (priv pub : Key) : Prop :=
  lib.scalarmult (clamp priv) basepoint = some pub

/-- What both sides rely on: every call returns, HKDF is RFC 5869's, DH
commutes on key pairs, a ciphertext is its plaintext and a tag long, and
decryption undoes encryption under the same key, nonce and associated
data. -/
structure Crypto.Lawful (lib : Crypto) : Prop where
  sha256_returns : ∀ data, ∃ digest, lib.sha256 data = some digest
  hmac_returns : ∀ key data, ∃ mac, lib.hmac key data = some mac
  hkdf_rfc5869 : ∀ salt ikm, lib.hkdf salt ikm = lib.extractExpand salt ikm
  scalarmult_returns : ∀ scalar point, ∃ shared, lib.scalarmult scalar point = some shared
  dh_commutes : ∀ a pubA b pubB, lib.KeyPair a pubA → lib.KeyPair b pubB →
    lib.scalarmult (clamp a) pubB = lib.scalarmult (clamp b) pubA
  encrypt_returns : ∀ key nonce ad plaintext, ∃ ciphertext,
    lib.encrypt key nonce ad plaintext = some ciphertext ∧
      ciphertext.length = plaintext.length + 16
  decrypt_encrypt : ∀ key nonce ad plaintext ciphertext,
    lib.encrypt key nonce ad plaintext = some ciphertext →
      lib.decrypt key nonce ad ciphertext = some plaintext

/-- A ciphertext that opens only under the key, nonce and associated data
it was sealed with. -/
def Crypto.OpensAsSealed (lib : Crypto) (ciphertext : List UInt8) : Prop :=
  ∀ key nonce ad plaintext key' nonce' ad' plaintext',
    lib.encrypt key nonce ad plaintext = some ciphertext →
    lib.decrypt key' nonce' ad' ciphertext = some plaintext' →
      key' = key ∧ nonce' = nonce ∧ ad' = ad ∧ plaintext' = plaintext

-- ========================================================= byte conversions

/-- The little-endian value of a byte string. -/
def leValue : List UInt8 → Nat
  | [] => 0
  | b :: bs => b.toNat + 256 * leValue bs

/-- `noise_nonce`: four zero bytes and the counter, little-endian. -/
def noiseNonce (counter : UInt64) : List UInt8 :=
  [0, 0, 0, 0] ++ (List.range 8).map fun i => (counter >>> UInt64.ofNat (8 * i)).toUInt8

/-- The 32 bytes at an offset of a buffer. -/
def keyAt (data : List UInt8) (offset : Nat) : Key :=
  Vector.ofFn fun i => data.getD (offset + i) 0

theorem leByte_eq_shift (counter : UInt64) {i : Nat} (hi : i < 8) :
    leByte counter.toNat i = (counter >>> UInt64.ofNat (8 * i)).toUInt8 := by
  have hpow : 256 ^ i = 2 ^ (8 * i) := by
    rw [pow_mul]
    norm_num
  apply UInt8.toNat_inj.mp
  rw [leByte, UInt8.toNat_ofNat', UInt64.toNat_toUInt8, UInt64.toNat_shiftRight,
    UInt64.toNat_ofNat', hpow, Nat.shiftRight_eq_div_pow,
    Nat.mod_eq_of_lt (show 8 * i < 2 ^ 64 by omega), Nat.mod_eq_of_lt (show 8 * i < 64 by omega)]

/-- The firmware's nonce is the one the host writes with `to_bytes`. -/
theorem noiseNonce_eq (counter : UInt64) :
    noiseNonce counter = [0, 0, 0, 0] ++ leBytes 8 counter.toNat := by
  rw [noiseNonce, leBytes]
  congr 1
  refine List.map_congr_left fun i hi => ?_
  exact (leByte_eq_shift counter (List.mem_range.mp hi)).symm

theorem leBytes_succ (n value : Nat) :
    leBytes (n + 1) value = UInt8.ofNat value :: leBytes n (value / 256) := by
  rw [leBytes, List.range_succ_eq_map, List.map_cons, List.map_map, leBytes]
  have hhead : leByte value 0 = UInt8.ofNat value := by rw [leByte, pow_zero, Nat.div_one]
  have htail : ∀ i ∈ List.range n, (leByte value ∘ Nat.succ) i = leByte (value / 256) i := by
    intro i _
    show UInt8.ofNat (value / 256 ^ (i + 1)) = UInt8.ofNat (value / 256 / 256 ^ i)
    rw [Nat.div_div_eq_div_mul, pow_succ']
  rw [hhead, List.map_congr_left htail]

/-- Little-endian bytes read back, as far as they reach. -/
theorem leValue_leBytes (n value : Nat) : leValue (leBytes n value) = value % 256 ^ n := by
  induction n generalizing value with
  | zero =>
      show 0 = _
      omega
  | succ n ih =>
      have hbyte : (UInt8.ofNat value).toNat = value % 256 := UInt8.toNat_ofNat'
      rw [leBytes_succ, leValue, ih, hbyte, pow_succ', Nat.mod_mul]

theorem leValue_lt (p : List UInt8) : leValue p < 256 ^ p.length := by
  induction p with
  | nil => exact Nat.one_pos
  | cons b p ih =>
      have hb := b.toNat_lt
      rw [leValue, List.length_cons, pow_succ']
      omega

theorem leBytes_length (n value : Nat) : (leBytes n value).length = n := by
  rw [leBytes, List.length_map, List.length_range]

/-- A byte string is the bytes of its value. -/
theorem leBytes_leValue (p : List UInt8) : leBytes p.length (leValue p) = p := by
  induction p with
  | nil => rfl
  | cons b p ih =>
      have hbyte := b.toNat_lt
      have hdiv : (b.toNat + 256 * leValue p) / 256 = leValue p := by omega
      have hmod : UInt8.ofNat (b.toNat + 256 * leValue p) = b := by
        apply UInt8.toNat_inj.mp
        rw [UInt8.toNat_ofNat']
        omega
      rw [List.length_cons, leValue, leBytes_succ, hdiv, hmod, ih]

theorem leValue_counter (counter : UInt64) :
    leValue (leBytes 8 counter.toNat) = counter.toNat := by
  have hlt : counter.toNat < 256 ^ 8 := counter.toNat_lt
  rw [leValue_leBytes, Nat.mod_eq_of_lt hlt]

/-- Different counters are different nonces. -/
theorem noiseNonce_inj {a b : UInt64} (h : noiseNonce a = noiseNonce b) : a = b := by
  rw [noiseNonce_eq, noiseNonce_eq] at h
  have hbytes := congrArg leValue (List.append_cancel_left h)
  rw [leValue_counter, leValue_counter] at hbytes
  exact UInt64.toNat_inj.mp hbytes

/-- A counter that is not exhausted counts on without wrapping. -/
theorem toNat_succ {counter : UInt64} (h : counter ≠ 0xffffffffffffffff) :
    (counter + 1).toNat = counter.toNat + 1 := by
  have hne : counter.toNat ≠ 2 ^ 64 - 1 := fun heq => h (UInt64.toNat_inj.mp heq)
  have hlt := counter.toNat_lt
  rw [UInt64.toNat_add, Nat.mod_eq_of_lt]
  · rfl
  · show counter.toNat + 1 < 2 ^ 64
    omega

/-- Reading back a key at the head of a buffer. -/
theorem keyAt_append (key : Key) (rest : List UInt8) : keyAt (key.toList ++ rest) 0 = key := by
  ext i hi
  rw [keyAt, Vector.getElem_ofFn, Nat.zero_add, List.getD_eq_getElem?_getD,
    List.getElem?_append_left (by simpa using hi)]
  simp [hi]

theorem keyAt_toList (key : Key) : keyAt key.toList 0 = key := by
  have h := keyAt_append key []
  rwa [List.append_nil] at h

theorem toList_length (key : Key) : key.toList.length = 32 := Vector.length_toList

-- ================================================================ the suite

/-- The primitives as the Noise pattern uses them. -/
def Crypto.suite (lib : Crypto) : Suite Key (List UInt8) where
  hash h data := lib.sha256 (h.toList ++ data)
  kdf ck input := lib.hkdf ck input
  dh a B := lib.scalarmult (clamp a) B
  encrypt key nonce ad plaintext := lib.encrypt key (noiseNonce nonce) ad.toList plaintext
  decrypt key nonce ad ciphertext := lib.decrypt key (noiseNonce nonce) ad.toList ciphertext
  bytes key := key.toList
  empty := []

variable {lib : Crypto}

@[simp] theorem suite_bytes (key : Key) : lib.suite.bytes key = key.toList := rfl

theorem Crypto.Lawful.extractExpand_returns (hlib : lib.Lawful) (salt : Key)
    (ikm : List UInt8) : ∃ keys, lib.extractExpand salt ikm = some keys := by
  obtain ⟨prk, hprk⟩ := hlib.hmac_returns salt ikm
  obtain ⟨t1, ht1⟩ := hlib.hmac_returns prk [1]
  obtain ⟨t2, ht2⟩ := hlib.hmac_returns prk (t1.toList ++ [2])
  refine ⟨(t1, t2), ?_⟩
  simp only [Crypto.extractExpand, hprk, ht1, ht2, Option.bind_eq_bind, Option.bind_some]

theorem Crypto.Lawful.returns (hlib : lib.Lawful) : lib.suite.Returns where
  hash h data := hlib.sha256_returns (h.toList ++ data)
  kdf ck input := by
    obtain ⟨keys, hkeys⟩ := hlib.extractExpand_returns ck input
    exact ⟨keys, (hlib.hkdf_rfc5869 ck input).trans hkeys⟩
  dh a B := hlib.scalarmult_returns (clamp a) B
  encrypt key nonce ad p := by
    obtain ⟨c, hc, -⟩ := hlib.encrypt_returns key (noiseNonce nonce) ad.toList p
    exact ⟨c, hc⟩

theorem Crypto.Lawful.opens (hlib : lib.Lawful) : lib.suite.Opens :=
  fun key nonce ad => hlib.decrypt_encrypt key (noiseNonce nonce) ad.toList

theorem Crypto.Lawful.encrypt_length (hlib : lib.Lawful) {key : Key}
    {nonce ad p c : List UInt8} (h : lib.encrypt key nonce ad p = some c) :
    c.length = p.length + 16 := by
  obtain ⟨c', hc', hlen⟩ := hlib.encrypt_returns key nonce ad p
  rw [h] at hc'
  cases hc'
  exact hlen

end PicoBridge
