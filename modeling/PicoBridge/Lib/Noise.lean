/-
The Noise IK handshake over abstract primitives: the symmetric state with
its four operations, and the two messages of the pattern from either side.

# The reading

A `Suite` supplies the primitives over a type `κ` of keys, hashes and
public keys and a type `β` of messages; a primitive that reports an error
returns `none`. A party's handshake is a run over the `Symmetric` state.
The nonce `2^64 - 1` is reserved, and a cipher without a key refuses.

# The agreement

`decryptAndHash_encryptAndHash` is the fact the pattern rests on: reading
what was sealed from the same symmetric state returns the plaintext and
ends in the same state. Since every token before it mixes the same values
into both states, the two sides of a message agree
(`readFirst_writeFirst`, `readSecond_writeSecond`).
-/
import PicoBridge.Lib.Procedure

namespace Lib.Noise

open Lib.Procedure

variable {κ β : Type}

-- ========================================================== primitives

/-- The primitives: `HASH(h ‖ data)`, `HKDF(ck, input, 2)`, `DH`, the
AEAD under key, nonce and associated data, and a key's bytes. -/
structure Suite (κ β : Type) where
  hash : κ → β → Option κ
  kdf : κ → β → Option (κ × κ)
  dh : κ → κ → Option κ
  encrypt : κ → UInt64 → κ → β → Option β
  decrypt : κ → UInt64 → κ → β → Option β
  bytes : κ → β
  empty : β

/-- The reserved nonce. -/
def maxNonce : UInt64 := 0xffffffffffffffff

/-- Every primitive returns. -/
structure Suite.Returns (S : Suite κ β) : Prop where
  hash : ∀ h data, ∃ d, S.hash h data = some d
  kdf : ∀ ck data, ∃ r, S.kdf ck data = some r
  dh : ∀ a B, ∃ z, S.dh a B = some z
  encrypt : ∀ k n ad p, ∃ c, S.encrypt k n ad p = some c

/-- Decryption undoes encryption. -/
def Suite.Opens (S : Suite κ β) : Prop :=
  ∀ k n ad p c, S.encrypt k n ad p = some c → S.decrypt k n ad c = some p

-- ====================================================== the symmetric state

/-- The chaining key, the handshake hash and the cipher. -/
structure Symmetric (κ : Type) where
  ck : κ
  h : κ
  key : Option κ
  nonce : UInt64

/-- A party's part of a handshake. -/
abbrev Party (κ α : Type) := EStateM Unit (Symmetric κ) α

variable (S : Suite κ β)

/-- `MixHash`. -/
def mixHash (data : β) : Party κ Unit := fun t =>
  match S.hash t.h data with
  | some h => .ok () { t with h := h }
  | none => .error () t

/-- `MixKey`, which restarts the cipher's nonce. -/
def mixKey (input : β) : Party κ Unit := fun t =>
  match S.kdf t.ck input with
  | some (ck, key) => .ok () { t with ck := ck, key := some key, nonce := 0 }
  | none => .error () t

/-- One use of the cipher: `op` on the input, the next nonce, and one of
input and output hashed. -/
def cipherAndHash (op : κ → UInt64 → κ → β → Option β) (hashed : β → β → β) (input : β) :
    Party κ β := fun t =>
  match t.key with
  | none => .error () t
  | some key =>
      if t.nonce = maxNonce then .error () t
      else
        match op key t.nonce t.h input with
        | none => .error () t
        | some output =>
            (do mixHash S (hashed input output); pure output : Party κ β)
              { t with nonce := t.nonce + 1 }

/-- `EncryptAndHash`. -/
def encryptAndHash (plaintext : β) : Party κ β :=
  cipherAndHash S S.encrypt (fun _ c => c) plaintext

/-- `DecryptAndHash`. -/
def decryptAndHash (ciphertext : β) : Party κ β :=
  cipherAndHash S S.decrypt (fun c _ => c) ciphertext

/-- `Split`: the initiator's sending key, then its receiving one. -/
def split : Party κ (κ × κ) := fun t =>
  match S.kdf t.ck S.empty with
  | some keys => .ok keys t
  | none => .error () t

/-- `MixKey(DH(a, B))`. -/
def mixDh (a B : κ) : Party κ Unit := do
  let z ← ofOption () (S.dh a B)
  mixKey S (S.bytes z)

-- ============================================================ the pattern

/-- The initiator's first message after its ephemeral key: `e, es, s, ss`. -/
def writeFirst (s spub e epub rs : κ) : Party κ β := do
  mixHash S (S.bytes epub)
  mixDh S e rs
  let c ← encryptAndHash S (S.bytes spub)
  mixDh S s rs
  pure c

/-- The responder reading `e, es, s`. -/
def readFirst (r epub : κ) (c : β) : Party κ β := do
  mixHash S (S.bytes epub)
  mixDh S r epub
  decryptAndHash S c

/-- The responder's `ss` and its message after its ephemeral key:
`e, ee, se`. -/
def writeSecond (r spub e' epub' epub : κ) (payload : β) : Party κ β := do
  mixDh S r spub
  mixHash S (S.bytes epub')
  mixDh S e' epub
  mixDh S e' spub
  encryptAndHash S payload

/-- The initiator reading `e, ee, se`. -/
def readSecond (s e epub' : κ) (c : β) : Party κ β := do
  mixHash S (S.bytes epub')
  mixDh S e epub'
  mixDh S s epub'
  decryptAndHash S c

-- ======================================================== the operations

variable {S}

theorem mixHash_eq_ok {data : β} {t t' : Symmetric κ} :
    mixHash S data t = .ok () t' ↔ ∃ h, S.hash t.h data = some h ∧ t' = { t with h := h } := by
  unfold mixHash
  cases hh : S.hash t.h data with
  | none => exact ⟨fun h => (by cases h), fun ⟨_, h, _⟩ => (by cases h)⟩
  | some d =>
      constructor
      · intro h
        cases h
        exact ⟨d, rfl, rfl⟩
      · rintro ⟨_, h, rfl⟩
        cases h
        rfl

theorem mixKey_eq_ok {input : β} {t t' : Symmetric κ} :
    mixKey S input t = .ok () t' ↔ ∃ r, S.kdf t.ck input = some r
      ∧ t' = { t with ck := r.1, key := some r.2, nonce := 0 } := by
  unfold mixKey
  cases hk : S.kdf t.ck input with
  | none => exact ⟨fun h => (by cases h), fun ⟨_, h, _⟩ => (by cases h)⟩
  | some r =>
      constructor
      · intro h
        cases h
        exact ⟨r, rfl, rfl⟩
      · rintro ⟨_, h, rfl⟩
        cases h
        rfl

theorem split_eq_ok {keys : κ × κ} {t t' : Symmetric κ} :
    split S t = .ok keys t' ↔ S.kdf t.ck S.empty = some keys ∧ t' = t := by
  unfold split
  cases hk : S.kdf t.ck S.empty with
  | none => exact ⟨fun h => (by cases h), fun ⟨h, _⟩ => (by cases h)⟩
  | some r =>
      constructor
      · intro h
        cases h
        exact ⟨rfl, rfl⟩
      · rintro ⟨h, rfl⟩
        cases h
        rfl

theorem mixDh_eq_ok {a B : κ} {t t' : Symmetric κ} :
    mixDh S a B t = .ok () t' ↔
      ∃ z, S.dh a B = some z ∧ mixKey S (S.bytes z) t = .ok () t' := by
  unfold mixDh
  rw [bind_eq_ok]
  constructor
  · rintro ⟨z, _, ho, hm⟩
    obtain ⟨hz, rfl⟩ := ofOption_eq_ok.mp ho
    exact ⟨z, hz, hm⟩
  · rintro ⟨z, hz, hm⟩
    exact ⟨z, t, ofOption_eq_ok.mpr ⟨hz, rfl⟩, hm⟩

theorem cipherAndHash_eq_ok {op : κ → UInt64 → κ → β → Option β} {hashed : β → β → β}
    {input output : β} {t t' : Symmetric κ} :
    cipherAndHash S op hashed input t = .ok output t' ↔ ∃ key, t.key = some key
      ∧ t.nonce ≠ maxNonce ∧ op key t.nonce t.h input = some output
      ∧ mixHash S (hashed input output) { t with nonce := t.nonce + 1 } = .ok () t' := by
  unfold cipherAndHash
  cases hk : t.key with
  | none => exact ⟨fun h => (by cases h), fun ⟨_, h, _⟩ => (by cases h)⟩
  | some key =>
      dsimp only
      by_cases hn : t.nonce = maxNonce
      · rw [if_pos hn]
        exact ⟨fun h => (by cases h), fun ⟨_, _, h, _⟩ => absurd hn h⟩
      · rw [if_neg hn]
        constructor
        · intro h
          cases hop : op key t.nonce t.h input with
          | none =>
              rw [hop] at h
              cases h
          | some out =>
              rw [hop] at h
              obtain ⟨_, s', hm, hp⟩ := bind_eq_ok.mp h
              obtain ⟨rfl, rfl⟩ := pure_eq_ok.mp hp
              exact ⟨key, rfl, hn, hop, hm⟩
        · rintro ⟨k, hk', -, hop, hm⟩
          cases hk'
          rw [hop]
          exact bind_eq_ok.mpr ⟨(), t', hm, pure_eq_ok.mpr ⟨rfl, rfl⟩⟩

/-- Reading what was sealed from the same state. -/
theorem decryptAndHash_encryptAndHash (hopens : S.Opens) {p c : β} {t t' : Symmetric κ}
    (h : encryptAndHash S p t = .ok c t') : decryptAndHash S c t = .ok p t' := by
  obtain ⟨key, hkey, hn, hc, hm⟩ := cipherAndHash_eq_ok.mp h
  exact cipherAndHash_eq_ok.mpr ⟨key, hkey, hn, hopens _ _ _ _ _ hc, hm⟩

/-- Two computations of one shared secret mix the same. -/
theorem mixDh_comm {a A b B : κ} (h : S.dh a B = S.dh b A) : mixDh S a B = mixDh S b A := by
  unfold mixDh
  rw [h]

-- ========================================================= the two messages

/-- The responder reads the initiator's static key and, once it has mixed
in `ss`, is in the initiator's state. -/
theorem readFirst_writeFirst (hopens : S.Opens) {s spub e epub r rs : κ}
    (hes : S.dh e rs = S.dh r epub) (hss : S.dh s rs = S.dh r spub) {c : β}
    {t t' : Symmetric κ} (h : writeFirst S s spub e epub rs t = .ok c t') :
    ∃ t₁, readFirst S r epub c t = .ok (S.bytes spub) t₁ ∧ mixDh S r spub t₁ = .ok () t' := by
  unfold writeFirst at h
  obtain ⟨_, t₁, he, h⟩ := bind_eq_ok.mp h
  obtain ⟨_, t₂, hes', h⟩ := bind_eq_ok.mp h
  obtain ⟨c', t₃, hs, h⟩ := bind_eq_ok.mp h
  obtain ⟨_, t₄, hss', h⟩ := bind_eq_ok.mp h
  obtain ⟨rfl, rfl⟩ := pure_eq_ok.mp h
  rw [mixDh_comm hes] at hes'
  rw [mixDh_comm hss] at hss'
  refine ⟨t₃, ?_, hss'⟩
  unfold readFirst
  rw [bind_ok he, bind_ok hes']
  exact decryptAndHash_encryptAndHash hopens hs

/-- The initiator reads the payload and ends in the responder's state. -/
theorem readSecond_writeSecond (hopens : S.Opens) {s spub e epub r e' epub' : κ}
    (hee : S.dh e' epub = S.dh e epub') (hse : S.dh e' spub = S.dh s epub') {payload c : β}
    {t t₁ t' : Symmetric κ} (hss : mixDh S r spub t = .ok () t₁)
    (h : writeSecond S r spub e' epub' epub payload t = .ok c t') :
    readSecond S s e epub' c t₁ = .ok payload t' := by
  unfold writeSecond at h
  rw [bind_ok hss] at h
  obtain ⟨_, t₂, he, h⟩ := bind_eq_ok.mp h
  obtain ⟨_, t₃, hee', h⟩ := bind_eq_ok.mp h
  obtain ⟨_, t₄, hse', h⟩ := bind_eq_ok.mp h
  rw [mixDh_comm hee] at hee'
  rw [mixDh_comm hse] at hse'
  unfold readSecond
  rw [bind_ok he, bind_ok hee', bind_ok hse']
  exact decryptAndHash_encryptAndHash hopens h

/-- The first message's ciphertext is sealed under the handshake hash with
the ephemeral key mixed in. -/
theorem writeFirst_encrypts {s spub e epub rs : κ} {c : β} {t t' : Symmetric κ}
    (h : writeFirst S s spub e epub rs t = .ok c t') :
    ∃ key ad, S.hash t.h (S.bytes epub) = some ad ∧
      S.encrypt key 0 ad (S.bytes spub) = some c := by
  unfold writeFirst at h
  obtain ⟨_, t₁, he, h⟩ := bind_eq_ok.mp h
  obtain ⟨_, t₂, hes, h⟩ := bind_eq_ok.mp h
  obtain ⟨c', t₃, hs, h⟩ := bind_eq_ok.mp h
  obtain ⟨_, t₄, -, h⟩ := bind_eq_ok.mp h
  obtain ⟨rfl, -⟩ := pure_eq_ok.mp h
  obtain ⟨ad, had, rfl⟩ := mixHash_eq_ok.mp he
  obtain ⟨z, -, hkey⟩ := mixDh_eq_ok.mp hes
  obtain ⟨keys, -, rfl⟩ := mixKey_eq_ok.mp hkey
  obtain ⟨key, -, -, hc, -⟩ := cipherAndHash_eq_ok.mp hs
  exact ⟨key, ad, had, hc⟩

-- ================================================================= liveness

theorem mixHash_returns (hS : S.Returns) (data : β) (t : Symmetric κ) :
    ∃ t', mixHash S data t = .ok () t' := by
  obtain ⟨d, hd⟩ := hS.hash t.h data
  exact ⟨_, mixHash_eq_ok.mpr ⟨d, hd, rfl⟩⟩

/-- After a DH is mixed in, the cipher has a key and a fresh nonce. -/
theorem mixDh_returns (hS : S.Returns) (a B : κ) (t : Symmetric κ) :
    ∃ t' key, mixDh S a B t = .ok () t' ∧ t'.key = some key ∧ t'.nonce = 0 := by
  obtain ⟨z, hz⟩ := hS.dh a B
  obtain ⟨r, hr⟩ := hS.kdf t.ck (S.bytes z)
  exact ⟨_, r.2, mixDh_eq_ok.mpr ⟨z, hz, mixKey_eq_ok.mpr ⟨r, hr, rfl⟩⟩, rfl, rfl⟩

theorem encryptAndHash_returns (hS : S.Returns) (p : β) {t : Symmetric κ} {key : κ}
    (hkey : t.key = some key) (hn : t.nonce = 0) :
    ∃ c t', encryptAndHash S p t = .ok c t' ∧ S.encrypt key 0 t.h p = some c := by
  obtain ⟨c, hc⟩ := hS.encrypt key t.nonce t.h p
  obtain ⟨t', ht'⟩ := mixHash_returns hS c { t with nonce := t.nonce + 1 }
  refine ⟨c, t', cipherAndHash_eq_ok.mpr ⟨key, hkey, ?_, hc, ht'⟩, ?_⟩
  · rw [hn]
    decide
  · rw [← hn]
    exact hc

theorem writeFirst_returns (hS : S.Returns) (s spub e epub rs : κ) (t : Symmetric κ) :
    ∃ c t' key ad, writeFirst S s spub e epub rs t = .ok c t'
      ∧ S.encrypt key 0 ad (S.bytes spub) = some c := by
  obtain ⟨t₁, he⟩ := mixHash_returns hS (S.bytes epub) t
  obtain ⟨t₂, key, hes, hkey, hn⟩ := mixDh_returns hS e rs t₁
  obtain ⟨c, t₃, hs, hc⟩ := encryptAndHash_returns hS (S.bytes spub) hkey hn
  obtain ⟨t₄, -, hss, -, -⟩ := mixDh_returns hS s rs t₃
  refine ⟨c, t₄, key, t₂.h, ?_, hc⟩
  unfold writeFirst
  rw [bind_ok he, bind_ok hes, bind_ok hs, bind_ok hss]
  rfl

theorem writeSecond_returns (hS : S.Returns) (r spub e' epub' epub : κ) (payload : β)
    (t : Symmetric κ) :
    ∃ c t' key ad, writeSecond S r spub e' epub' epub payload t = .ok c t'
      ∧ S.encrypt key 0 ad payload = some c := by
  obtain ⟨t₁, -, hss, -, -⟩ := mixDh_returns hS r spub t
  obtain ⟨t₂, he⟩ := mixHash_returns hS (S.bytes epub') t₁
  obtain ⟨t₃, -, hee, -, -⟩ := mixDh_returns hS e' epub t₂
  obtain ⟨t₄, key, hse, hkey, hn⟩ := mixDh_returns hS e' spub t₃
  obtain ⟨c, t₅, hc, hsealed⟩ := encryptAndHash_returns hS payload hkey hn
  refine ⟨c, t₅, key, t₄.h, ?_, hsealed⟩
  unfold writeSecond
  rw [bind_ok hss, bind_ok he, bind_ok hee, bind_ok hse]
  exact hc

theorem split_returns (hS : S.Returns) (t : Symmetric κ) :
    ∃ keys, split S t = .ok keys t := by
  obtain ⟨keys, hkeys⟩ := hS.kdf t.ck S.empty
  exact ⟨keys, split_eq_ok.mpr ⟨hkeys, rfl⟩⟩

end Lib.Noise
