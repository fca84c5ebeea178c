/-
The handshakes of both sides as stages of one history: what each step
derives and seals, and what holds after it, up to a failure at any of
them.

# The invariant

A key seals because of a derivation (`SealsUnder`): the second half of a
`mix_key` output during a handshake, and of a Split the second half on
the device and the first on the host. `Sound` (`Lib.KeySchedule`) is the
invariant of the history; `DeviceKept` and `HostKept` tie the counters
of either side to it.

# Where fresh keys come from

The device draws its ephemeral key inside the handshake, so its `ee` is a
new input for everybody and everything it derives after it is new. The
host's `es` is new for everybody too, but its `ee` is not: the device has
derived from it. It is new for the host, and that suffices, because the
device never seals with the half the host sends with.
-/
import PicoBridge.Noise.History

namespace PicoBridge

open Lib Lib.Procedure Lib.KeySchedule

-- ================================================================== the roles

/-- The derivations a party seals because of, and the key it seals with. -/
inductive SealsUnder : Party → Party → Derivation Key (List UInt8) → Key → Prop
  | handshake (p q : Party) (d : Derivation Key (List UInt8)) (hmix : d.input ≠ []) :
      SealsUnder p q d d.second
  | receipts (q : Party) (d : Derivation Key (List UInt8)) (hsplit : d.input = []) :
      SealsUnder .device q d d.second
  | commands (d : Derivation Key (List UInt8)) (hsplit : d.input = []) :
      SealsUnder .host .host d d.first

theorem sealsUnder_outputs {p q : Party} {d : Derivation Key (List UInt8)} {k : Key}
    (h : SealsUnder p q d k) : k = d.first ∨ k = d.second := by
  cases h with
  | handshake => exact .inr rfl
  | receipts => exact .inr rfl
  | commands => exact .inl rfl

/-- What a run's history is assumed to be like: derivation symbolic,
ephemeral keys fresh. -/
def Good (root : Key) (h : History) : Prop := Symbolic root h ∧ Fresh h

theorem Good.of_append {root : Key} {h h' : History} (hg : Good root (h ++ h')) : Good root h :=
  ⟨hg.1.of_append, hg.2.of_append⟩

-- ======================================================== the two invariants

/-- The device's sending key is Split's, and has sealed with the counters
below the present one. -/
def DeviceSends (ctx : NoiseIkCtx) (h : History) : Prop :=
  ∃ q d, .derived q d ∈ h ∧ d.input = [] ∧ ctx.sendKey = d.second ∧
    sealed h ctx.sendKey = List.range ctx.sendNonce.toNat

/-- So it is in a session. -/
def DeviceKept (ctx : NoiseIkCtx) (h : History) : Prop :=
  ctx.ready = true → DeviceSends ctx h

/-- The host derives from its own chaining keys, from the present one by
Split alone since it drew its ephemeral key, and its commands count up
under its sending key. -/
structure HostKept (root : Key) (host : NoiseIKInitiator) (h : History) : Prop where
  rooted : Rooted (· = .host) root h
  chained : Chained (· = .host) root h host.ck
  drawn : ∀ e, host.ephPriv = some e → ∃ pre post, h = pre ++ .drawn e :: post ∧
    ∀ d, .derived .host d ∈ post → d.salt = host.ck → d.input = []
  sends : ∀ k, host.sendKey = some k → ∃ d, .derived .host d ∈ h ∧ d.input = [] ∧
    k = d.first ∧ sealed h k = List.range host.sendNonce

/-- All of it, of both sides. -/
structure NoncesKept (root : Key) (s : Parties) (h : History) : Prop where
  sound : Sound SealsUnder root h
  rooted : Rooted (· = .host) root h
  device : DeviceKept s.device h
  host : ∀ self, s.host = some self → HostKept root self h

-- ============================================================ whose calls

/-- Calls of one party. -/
def By (p : Party) (new : History) : Prop :=
  (∀ q d, .derived q d ∈ new → q = p) ∧ ∀ q op k n ok, .used q op k n ok ∈ new → q = p

variable {root : Key} {h new : History}

/-- The key the host sends with is not one the device seals with. -/
theorem sends_append (hs : Sound SealsUnder root (h ++ new)) (hsym : Symbolic root (h ++ new))
    (hby : By .device new) {d : Derivation Key (List UInt8)} (hd : .derived .host d ∈ h) :
    sealed (h ++ new) d.first = sealed h d.first := by
  refine sealed_append_of_not fun p n hused => ?_
  obtain rfl := hby.2 _ _ _ _ _ hused
  obtain ⟨q, d', hd', hrole⟩ := hs.keyed _ _ n (List.mem_append_right _ hused)
  generalize hk : d.first = k at hrole
  have hfirst : d.first ≠ d'.second :=
    hsym.separated _ (mem_derivations.mpr (List.mem_append_left _ hd)) _
      (mem_derivations.mpr hd')
  cases hrole with
  | handshake => exact hfirst hk
  | receipts => exact hfirst hk

/-- The key of the device's receipts is not one the host seals with. -/
theorem receipts_not_host {d : Derivation Key (List UInt8)} {q : Party} {n : Nat}
    (hs : Sound SealsUnder root h) (hsym : Symbolic root h) (hd : .derived q d ∈ h)
    (hsplit : d.input = []) : .used .host .sealing d.second n true ∉ h := by
  intro hused
  obtain ⟨q', d', hd', hrole⟩ := hs.keyed _ _ n hused
  generalize hk : d.second = k at hrole
  cases hrole with
  | handshake _ _ _ hmix =>
      have hsame := hsym.second_inj _ (mem_derivations.mpr hd) _ (mem_derivations.mpr hd') hk
      exact hmix (hsame.2.symm.trans hsplit)
  | commands =>
      exact hsym.separated _ (mem_derivations.mpr hd') _ (mem_derivations.mpr hd) hk.symm

/-- The host's calls leave the device's counters right. -/
theorem DeviceKept.append {ctx : NoiseIkCtx} (hd : DeviceKept ctx h)
    (hs : Sound SealsUnder root (h ++ new)) (hsym : Symbolic root (h ++ new))
    (hby : By .host new) : DeviceKept ctx (h ++ new) := by
  intro hready
  obtain ⟨q, d, hmem, hsplit, hkey, hcount⟩ := hd hready
  refine ⟨q, d, List.mem_append_left _ hmem, hsplit, hkey, ?_⟩
  rw [sealed_append_of_not fun p n hused => ?_, hcount]
  obtain rfl := hby.2 _ _ _ _ _ hused
  rw [hkey] at hused
  exact receipts_not_host hs hsym (List.mem_append_left _ hmem) hsplit
    (List.mem_append_right _ hused)

/-- The device's calls leave the host's side of it right. -/
theorem HostKept.append {self : NoiseIKInitiator} (hh : HostKept root self h)
    (hs : Sound SealsUnder root (h ++ new)) (hsym : Symbolic root (h ++ new))
    (hby : By .device new) : HostKept root self (h ++ new) where
  rooted := hh.rooted.append fun p d hp hmem => by
    cases hp
    exact absurd (hby.1 _ _ hmem) (by decide)
  chained := hh.chained.append
  drawn e he := by
    obtain ⟨pre, post, rfl, hpost⟩ := hh.drawn e he
    refine ⟨pre, post ++ new, by simp, fun d hmem => ?_⟩
    rcases List.mem_append.mp hmem with hmem | hmem
    · exact hpost d hmem
    · exact absurd (hby.1 _ _ hmem) (by decide)
  sends k hk := by
    obtain ⟨d, hmem, hsplit, rfl, hcount⟩ := hh.sends k hk
    refine ⟨d, List.mem_append_left _ hmem, hsplit, rfl, ?_⟩
    rw [sends_append hs hsym hby hmem, hcount]

-- ============================================================== one key mixed in

/-- The next secret computed with `a` is a new input for `who`. -/
def InputNew (who : Party → Prop) (a : Key) (h : History) (ck : Key) : Prop :=
  ∀ s, Fresh (h ++ [.shared a s]) → s ≠ [] → New who h ck s

/-- A secret computed with `a` and the derivation from it. -/
def noteMixed (p : Party) (a ck : Key) (s : List UInt8) (first second : Key) : History :=
  [.shared a s, .derived p ⟨ck, s, first, second⟩]

section Mixed

variable {who : Party → Prop} {p : Party} {a ck first second : Key} {s : List UInt8}

theorem append_mixed :
    h ++ noteMixed p a ck s first second
      = h ++ [.shared a s] ++ [.derived p ⟨ck, s, first, second⟩] := by
  rw [List.append_assoc]
  rfl

theorem chained_anyone (hc : Chained who root h ck) : Chained (fun _ => True) root h ck := by
  rcases hc with hroot | ⟨p, d, -, hmem, hfirst⟩
  · exact .inl hroot
  · exact .inr ⟨p, d, trivial, hmem, hfirst⟩

/-- A drawn key's first secret is new for everybody. -/
theorem inputNew_drawn {pre : History} : InputNew (fun _ => True) a (pre ++ [.drawn a]) ck := by
  intro s hfresh _ p d hp hmem
  rw [List.append_assoc] at hfresh
  have hpre : .derived p d ∈ pre := by simpa using hmem
  exact hfresh.new List.mem_cons_self p d hp hpre

theorem unsalted_inputNew (hu : Unsalted who h ck) : InputNew who a h ck :=
  fun _ _ _ => hu.new

theorem mixed_sound (hs : Sound SealsUnder root h) (hc : Chained (fun _ => True) root h ck) :
    Sound SealsUnder root (h ++ noteMixed p a ck s first second) := by
  rw [append_mixed]
  exact (hs.inert (by simp) (by simp)).derived hc.append

theorem mixed_rooted (hr : Rooted who root h) (hc : Chained who root h ck) :
    Rooted who root (h ++ noteMixed p a ck s first second) := by
  rw [append_mixed]
  exact (hr.append (by simp)).derived hc.append

theorem mixed_chained (hp : who p) :
    Chained who root (h ++ noteMixed p a ck s first second) first := by
  rw [append_mixed]
  exact Chained.derived hp

theorem mixed_new (hn : InputNew who a h ck)
    (hg : Good root (h ++ noteMixed p a ck s first second)) (hne : s ≠ []) :
    New who (h ++ [.shared a s]) ck s := by
  rw [append_mixed] at hg
  intro q d hq hmem
  have hmem' : .derived q d ∈ h := by simpa using hmem
  exact hn s hg.2.of_append hne q d hq hmem'

/-- The chaining key a new secret gives has salted nothing. -/
theorem mixed_unsalted (hr : Rooted who root h) (hc : Chained who root h ck)
    (hn : InputNew who a h ck) (hg : Good root (h ++ noteMixed p a ck s first second))
    (hne : s ≠ []) : Unsalted who (h ++ noteMixed p a ck s first second) first := by
  have hnew := mixed_new hn hg hne
  rw [append_mixed] at hg ⊢
  exact new_unsalted hg.1 (hr.append (by simp)) hc.append hnew

/-- The cipher key a secret gives that is new for everybody has sealed
nothing. -/
theorem mixed_unsealed (hs : Sound SealsUnder root h) (hn : InputNew (fun _ => True) a h ck)
    (hg : Good root (h ++ noteMixed p a ck s first second)) (hne : s ≠ []) :
    sealed (h ++ noteMixed p a ck s first second) second = [] := by
  have hnew := mixed_new hn hg hne
  rw [append_mixed] at hg ⊢
  exact new_unsealed (d := ⟨ck, s, first, second⟩) (fun _ _ _ _ => sealsUnder_outputs)
    (hs.inert (by simp) (by simp)) hg.1 hnew

end Mixed

theorem key_ne_nil (key : Key) : key.toList ≠ [] := by
  intro hnil
  have hlen := toList_length key
  rw [hnil] at hlen
  exact absurd hlen (by decide)

-- ================================================================== the stages

/-- Calls of one party that use the cipher at its first nonce only. -/
def AtZero (p : Party) (new : History) : Prop :=
  By p new ∧ ∀ q op k n ok, .used q op k n ok ∈ new → n = 0

theorem By.append {p : Party} {new new' : History} (hb : By p new) (hb' : By p new') :
    By p (new ++ new') := by
  refine ⟨fun q d hmem => ?_, fun q op k n ok hmem => ?_⟩
  · exact (List.mem_append.mp hmem).elim (hb.1 q d) (hb'.1 q d)
  · exact (List.mem_append.mp hmem).elim (hb.2 q op k n ok) (hb'.2 q op k n ok)

theorem AtZero.append {p : Party} {new new' : History} (hz : AtZero p new)
    (hz' : AtZero p new') : AtZero p (new ++ new') :=
  ⟨hz.1.append hz'.1, fun q op k n ok hmem =>
    (List.mem_append.mp hmem).elim (hz.2 q op k n ok) (hz'.2 q op k n ok)⟩

theorem atZero_nil (p : Party) : AtZero p [] := by
  refine ⟨⟨?_, ?_⟩, ?_⟩ <;> simp

/-- A point of a handshake of `p` that began at the history `h`: `U` of the
state, and `I` of state and history if the history is a good one. -/
def Stage {σ : Type} (p : Party) (root : Key) (h : History) (U : σ → Prop)
    (I : σ → History → Prop) (s : σ × History) : Prop :=
  AtZero p s.2 ∧ U s.1 ∧
    (Good root (h ++ s.2) → Sound SealsUnder root (h ++ s.2) ∧ I s.1 (h ++ s.2))

/-- What a step has to show of its own note. -/
theorem Stage.step {σ : Type} {p : Party} {U U' : σ → Prop} {I I' : σ → History → Prop}
    {s s' : σ} {note : History} (hst : Stage p root h U I (s, new)) (hz : AtZero p note)
    (hU : U' s')
    (hI : Good root (h ++ new ++ note) → Sound SealsUnder root (h ++ new) → I s (h ++ new) →
      Sound SealsUnder root (h ++ new ++ note) ∧ I' s' (h ++ new ++ note)) :
    Stage p root h U' I' (s', new ++ note) := by
  refine ⟨hst.1.append hz, hU, fun hg => ?_⟩
  rw [← List.append_assoc] at hg ⊢
  obtain ⟨hs, hi⟩ := hst.2.2 hg.of_append
  exact hI hg hs hi

theorem atZero_mixed (p : Party) (a ck first second : Key) (s : List UInt8) :
    AtZero p (noteMixed p a ck s first second) := by
  refine ⟨⟨?_, ?_⟩, ?_⟩ <;> simp +contextual [noteMixed]

theorem atZero_shared (p : Party) (a : Key) (s : List UInt8) : AtZero p [.shared a s] := by
  refine ⟨⟨?_, ?_⟩, ?_⟩ <;> simp

theorem by_used (p : Party) (op : Operation) (key : Key) (n : Nat) (ok : Bool) :
    By p [.used p op key n ok] := by
  refine ⟨by simp, fun q op' k n' ok' hmem => ?_⟩
  cases List.mem_singleton.mp hmem
  rfl

theorem atZero_used (p : Party) (op : Operation) (key : Key) (ok : Bool) :
    AtZero p [.used p op key 0 ok] := by
  refine ⟨by_used p op key 0 ok, fun q op' k n ok' hmem => ?_⟩
  cases List.mem_singleton.mp hmem
  rfl

/-- A step without a note. -/
theorem Stage.quiet {σ : Type} {p : Party} {U U' : σ → Prop} {I I' : σ → History → Prop}
    {s s' : σ} (hst : Stage p root h U I (s, new)) (hU : U' s')
    (hI : ∀ h, I s h → I' s' h) : Stage p root h U' I' (s', new ++ []) := by
  refine hst.step (atZero_nil p) hU fun _ hs hi => ?_
  rw [List.append_nil]
  exact ⟨hs, hI _ hi⟩

-- ================================================================== the device

section Device

variable {lib : Crypto} {U : NoiseIkCtx → Prop} {I : NoiseIkCtx → History → Prop}

/-- What a failure leaves of it. -/
def deviceFailed (root : Key) (h : History) (_ : Unit) : NoiseIkCtx × History → Prop :=
  Stage .device root h (fun _ => True) fun _ _ => True

/-- The chaining key comes from the root. -/
def DeviceChained (root : Key) (ctx : NoiseIkCtx) (h : History) : Prop :=
  Chained (fun _ => True) root h ctx.ck

/-- The chaining key has salted nothing. -/
structure DeviceNew (root : Key) (ctx : NoiseIkCtx) (h : History) : Prop where
  chained : Chained (fun _ => True) root h ctx.ck
  unsalted : Unsalted (fun _ => True) h ctx.ck

/-- The cipher key is a new one of `mix_key`. -/
structure DeviceSeals (root : Key) (ctx : NoiseIkCtx) (h : History) : Prop
    extends DeviceNew root ctx h where
  keyed : ∃ q d, .derived q d ∈ h ∧ d.input ≠ [] ∧ ctx.key = d.second
  unsealed : sealed h ctx.key = []

theorem Stage.failed {s : NoiseIkCtx × History} (hst : Stage .device root h U I s) :
    deviceFailed root h () s :=
  ⟨hst.1, trivial, fun hg => ⟨(hst.2.2 hg).1, trivial⟩⟩

/-- `x25519_dh` and `mix_key` with their notes. -/
theorem loggedMixDh_run (priv pub : Key) (ctx : NoiseIkCtx) (new : History) :
    loggedMixDh lib priv pub (ctx, new) = match x25519Dh lib priv pub with
      | none => .error () (ctx, new ++ [])
      | some shared => match lib.hkdf ctx.ck shared.toList with
        | none => .error () (ctx, new ++ [.shared priv shared.toList])
        | some (ck, key) =>
            .ok () ({ ctx with ck := ck, key := key, nonceCounter := 0 },
              new ++ noteMixed .device priv ctx.ck shared.toList ck key) := by
  unfold loggedMixDh
  cases x25519Dh lib priv pub with
  | none => exact bind_error rfl
  | some shared =>
      refine (bind_ok rfl).trans ?_
      unfold loggedMixKey record mixKey
      cases hkdf : lib.hkdf ctx.ck shared.toList with
      | none => simp [noteDerived, noteShared, withHistory, hkdf]
      | some keys => simp [noteDerived, noteShared, withHistory, hkdf, noteMixed]

/-- A secret mixed in keeps the chaining key on the root. -/
theorem loggedMixDh_chained (priv pub : Key)
    (hI : ∀ ctx h, I ctx h → Chained (fun _ => True) root h ctx.ck) :
    Triple (Stage .device root h U I) (loggedMixDh lib priv pub)
      (fun _ => Stage .device root h (·.nonceCounter = 0) (DeviceChained root))
      (deviceFailed root h) := by
  rintro ⟨ctx, new⟩ hst
  rw [loggedMixDh_run]
  cases x25519Dh lib priv pub with
  | none =>
      show deviceFailed root h () (ctx, new ++ [])
      exact hst.quiet trivial fun _ _ => trivial
  | some shared =>
      dsimp only
      cases lib.hkdf ctx.ck shared.toList with
      | none =>
          exact hst.step (atZero_shared _ _ _) trivial fun _ hs _ =>
            ⟨hs.inert (by simp) (by simp), trivial⟩
      | some keys =>
          exact hst.step (atZero_mixed _ _ _ _ _ _) rfl fun _ hs hi =>
            ⟨mixed_sound hs (hI _ _ hi), mixed_chained trivial⟩

/-- A new secret mixed in gives a new cipher key. -/
theorem loggedMixDh_new (priv pub : Key)
    (hI : ∀ ctx h, I ctx h → Chained (fun _ => True) root h ctx.ck ∧
      InputNew (fun _ => True) priv h ctx.ck) :
    Triple (Stage .device root h U I) (loggedMixDh lib priv pub)
      (fun _ => Stage .device root h (·.nonceCounter = 0) (DeviceSeals root))
      (deviceFailed root h) := by
  rintro ⟨ctx, new⟩ hst
  rw [loggedMixDh_run]
  cases x25519Dh lib priv pub with
  | none =>
      show deviceFailed root h () (ctx, new ++ [])
      exact hst.quiet trivial fun _ _ => trivial
  | some shared =>
      dsimp only
      cases lib.hkdf ctx.ck shared.toList with
      | none =>
          exact hst.step (atZero_shared _ _ _) trivial fun _ hs _ =>
            ⟨hs.inert (by simp) (by simp), trivial⟩
      | some keys =>
          refine hst.step (atZero_mixed _ _ _ _ _ _) rfl fun hg hs hi => ?_
          obtain ⟨hc, hn⟩ := hI _ _ hi
          have hne := key_ne_nil shared
          refine ⟨mixed_sound hs hc, ⟨mixed_chained trivial, ?_⟩, ?_, ?_⟩
          · exact mixed_unsalted hs.rooted hc hn hg hne
          · exact ⟨.device, ⟨ctx.ck, shared.toList, keys.1, keys.2⟩, by simp [noteMixed], hne, rfl⟩
          · exact mixed_unsealed hs hn hg hne

theorem mixHash_fields {data : List UInt8} {ctx ctx' : NoiseIkCtx} {u : Unit}
    (h : mixHash lib data ctx = .ok u ctx') : ∃ x, ctx' = { ctx with h := x } := by
  unfold mixHash at h
  split at h
  · cases h
  · split at h
    · cases h
      exact ⟨_, rfl⟩
    · cases h

theorem quietly_mixHash (data : List UInt8)
    (hI : ∀ ctx x h, I ctx h → I { ctx with h := x } h) :
    Triple (Stage .device root h (fun _ => True) I) (quietly (mixHash lib data))
      (fun _ => Stage .device root h (fun _ => True) I) (deviceFailed root h) := by
  refine Triple.record (fun ctx new _ ctx' hst hrun => ?_) fun ctx new _ ctx' hst _ =>
    hst.quiet trivial fun _ _ => trivial
  obtain ⟨x, rfl⟩ := mixHash_fields hrun
  exact hst.quiet trivial fun h hi => hI ctx x h hi

/-- `reset_handshake_state` ends on the root. -/
theorem resetHandshakeState_root (hroot : lib.sha256 proto = some root) {ctx ctx' : NoiseIkCtx}
    {u : Unit} (hrun : resetHandshakeState lib ctx = .ok u ctx') : ctx'.ck = root := by
  have hname : lib.sha256 ikProtocolName = some root := hroot
  unfold resetHandshakeState at hrun
  rw [hname] at hrun
  obtain ⟨x, rfl⟩ := mixHash_fields hrun
  rfl

/-- Opening uses the cipher at its first nonce and keeps the chaining key. -/
theorem loggedDecryptAndHash_stage (encrypted : List UInt8) :
    Triple (Stage .device root h (·.nonceCounter = 0) (DeviceChained root))
      (loggedDecryptAndHash lib encrypted)
      (fun _ => Stage .device root h (fun _ => True) (DeviceChained root))
      (deviceFailed root h) := by
  have hstep : ∀ (ctx ctx' : NoiseIkCtx) (new : History),
      Stage .device root h (·.nonceCounter = 0) (DeviceChained root) (ctx, new) →
      ctx'.ck = ctx.ck →
      Stage .device root h (fun _ => True) (DeviceChained root) (ctx', new ++
        if encrypted.length < noiseIkTagLen ∨ ctx.nonceCounter = uint64Max then []
        else [.used .device .opening ctx.key ctx.nonceCounter.toNat
          (lib.decrypt ctx.key (noiseNonce ctx.nonceCounter) ctx.h.toList encrypted).isSome]) := by
    intro ctx ctx' new hst hck
    split
    · exact hst.quiet trivial fun h hi => by
        rw [DeviceChained, hck]
        exact hi
    · rw [hst.2.1]
      refine hst.step (atZero_used _ _ _ _) trivial fun _ hs hi =>
        ⟨hs.inert (by simp) (by simp), ?_⟩
      rw [DeviceChained, hck]
      exact Chained.append hi
  refine Triple.record (fun ctx new _ ctx' hst hrun => hstep ctx ctx' new hst ?_)
    fun ctx new _ ctx' hst _ => ?_
  · unfold cipherDecryptAndHash at hrun
    split at hrun
    · cases hrun
    · split at hrun
      · cases hrun
      · obtain ⟨_, ctx₁, hmix, hpure⟩ := bind_eq_ok.mp hrun
        obtain ⟨x, rfl⟩ := mixHash_fields hmix
        obtain ⟨-, rfl⟩ := pure_eq_ok.mp hpure
        rfl
  · exact (hstep ctx ctx new hst rfl).failed

/-- Sealing uses the cipher at its first nonce under a key that has sealed
nothing, and keeps the chaining key. -/
theorem loggedEncryptAndHash_stage (plaintext : List UInt8) :
    Triple (Stage .device root h (·.nonceCounter = 0) (DeviceSeals root))
      (loggedEncryptAndHash lib plaintext)
      (fun _ => Stage .device root h (fun _ => True) (DeviceNew root))
      (deviceFailed root h) := by
  have hstep : ∀ (ctx ctx' : NoiseIkCtx) (new : History),
      Stage .device root h (·.nonceCounter = 0) (DeviceSeals root) (ctx, new) →
      ctx'.ck = ctx.ck →
      Stage .device root h (fun _ => True) (DeviceNew root) (ctx', new ++
        if ctx.nonceCounter = uint64Max then []
        else [.used .device .sealing ctx.key ctx.nonceCounter.toNat
          (lib.encrypt ctx.key (noiseNonce ctx.nonceCounter) ctx.h.toList plaintext).isSome]) := by
    intro ctx ctx' new hst hck
    split
    · refine hst.quiet trivial fun h hi => ⟨?_, ?_⟩
      · rw [hck]
        exact hi.chained
      · rw [hck]
        exact hi.unsalted
    · rw [hst.2.1]
      refine hst.step (atZero_used _ _ _ _) trivial fun _ hs hi => ⟨?_, ?_, ?_⟩
      · obtain ⟨q, d, hd, hmix, hkey⟩ := hi.keyed
        cases (lib.encrypt ctx.key (noiseNonce 0) ctx.h.toList plaintext).isSome with
        | false => exact hs.inert (by simp) (by simp)
        | true =>
            refine hs.seal hd (hkey ▸ .handshake .device q d hmix) hi.unsealed fun p n hused => ?_
            have hmem := mem_sealed.mpr ⟨p, hused⟩
            rw [hi.unsealed] at hmem
            exact absurd hmem (by simp)
      · rw [hck]
        exact hi.chained.append
      · rw [hck]
        exact hi.unsalted.append (by simp)
  refine Triple.record (fun ctx new _ ctx' hst hrun => hstep ctx ctx' new hst ?_)
    fun ctx new _ ctx' hst _ => ?_
  · unfold cipherEncryptAndHash at hrun
    split at hrun
    · cases hrun
    · split at hrun
      · cases hrun
      · obtain ⟨_, ctx₁, hmix, hpure⟩ := bind_eq_ok.mp hrun
        obtain ⟨x, rfl⟩ := mixHash_fields hmix
        obtain ⟨-, rfl⟩ := pure_eq_ok.mp hpure
        rfl
  · exact (hstep ctx ctx new hst rfl).failed

/-- Split gives the device a sending key that has sealed nothing. -/
theorem loggedSplitTransport_stage :
    Triple (Stage .device root h (fun _ => True) (DeviceNew root)) (loggedSplitTransport lib)
      (fun _ => Stage .device root h (fun _ => True) DeviceSends) (deviceFailed root h) := by
  refine Triple.record (fun ctx new _ ctx' hst hrun => ?_) fun ctx new _ ctx' hst hrun => ?_
  · unfold splitTransport at hrun
    split at hrun
    next k1 k2 hkeys =>
      cases hrun
      rw [hkeys]
      have hz : AtZero .device [.derived .device ⟨ctx.ck, [], k1, k2⟩] := by
        refine ⟨⟨?_, ?_⟩, ?_⟩ <;> simp +contextual
      refine hst.step hz trivial fun hg hs hi => ⟨hs.derived hi.chained, ?_⟩
      refine ⟨.device, ⟨ctx.ck, [], k1, k2⟩, by simp [noteDerived], rfl, rfl, ?_⟩
      exact new_unsealed (d := ⟨ctx.ck, [], k1, k2⟩) (fun _ _ _ _ => sealsUnder_outputs) hs hg.1
        hi.unsalted.new
    next => cases hrun
  · unfold splitTransport at hrun
    split at hrun
    next => cases hrun
    next hkeys =>
      cases hrun
      rw [hkeys]
      exact hst.quiet trivial fun _ _ => trivial

/-- A step that keeps the chaining key, the session and the history. -/
theorem quietly_keeps {α : Type} (x : Noise α) {I : NoiseIkCtx → History → Prop}
    (hx : ∀ ctx a ctx' h, x ctx = .ok a ctx' → I ctx h → I ctx' h) :
    Triple (Stage .device root h (fun _ => True) I) (quietly x)
      (fun _ => Stage .device root h (fun _ => True) I) (deviceFailed root h) :=
  Triple.record (fun _ _ _ _ hst hrun => hst.quiet trivial fun h hi => hx _ _ _ h hrun hi)
    fun _ _ _ _ hst _ => hst.quiet trivial fun _ _ => trivial

theorem loggedReadInitiator_stage (priv : Key) (message : List UInt8) :
    Triple (Stage .device root h (fun _ => True) (DeviceChained root))
      (loggedReadInitiator lib priv message)
      (fun _ => Stage .device root h (fun _ => True) (DeviceChained root))
      (deviceFailed root h) := by
  refine (quietly_mixHash _ fun _ _ _ hi => hi).bind fun _ => ?_
  refine (loggedMixDh_chained priv _ fun _ _ hi => hi).bind fun _ => ?_
  exact loggedDecryptAndHash_stage _

theorem loggedIdentifyInitiator_stage (hroot : lib.sha256 proto = some root)
    (message : List UInt8) :
    Triple (Stage .device root h (fun _ => True) fun _ _ => True)
      (loggedIdentifyInitiator lib message)
      (fun _ => Stage .device root h (fun _ => True) (DeviceChained root))
      (deviceFailed root h) := by
  have hreset : Triple (Stage .device root h (fun _ => True) fun _ _ => True)
      (quietly (resetHandshakeState lib))
      (fun _ => Stage .device root h (fun _ => True) (DeviceChained root))
      (deviceFailed root h) :=
    Triple.record (fun _ _ _ _ hst hrun => hst.quiet trivial fun _ _ =>
      .inl (resetHandshakeState_root hroot hrun))
      fun _ _ _ _ hst _ => hst.quiet trivial fun _ _ => trivial
  refine hreset.bind fun _ => ?_
  refine (quietly_keeps get fun ctx a ctx' h hrun hi => ?_).bind fun ctx => ?_
  · cases hrun
    exact hi
  refine (loggedReadInitiator_stage _ _).bind fun plaintext => ?_
  refine quietly_keeps _ fun ctx a ctx' h hrun hi => ?_
  obtain ⟨ctx₁, _, hget, hrest⟩ := bind_eq_ok.mp hrun
  cases hget
  by_cases hrefused : plaintext.length ≠ noiseIkKeyLen ∨ ¬ctx.controllersSet
  · rw [if_pos hrefused] at hrest
    cases hrest
  · rw [if_neg hrefused] at hrest
    obtain ⟨-, rfl⟩ := pure_eq_ok.mp hrest
    exact hi

/-- The device's `ee` is a new input for everybody, so what it seals and
splits after it is under new keys. -/
theorem loggedWriteResponse_stage (priv initiatorStatic initiatorEph : Key)
    (responderEph : Option (Key × Key)) :
    Triple (Stage .device root h (fun _ => True) (DeviceChained root))
      (loggedWriteResponse lib priv initiatorStatic initiatorEph responderEph)
      (fun _ => Stage .device root h (fun _ => True) (DeviceNew root))
      (deviceFailed root h) := by
  -- After the draw: the chaining key is the root's, the draw the last call.
  let Drawn (e : Key) : NoiseIkCtx → History → Prop := fun ctx h =>
    Chained (fun _ => True) root h ctx.ck ∧ ∃ pre, h = pre ++ [.drawn e]
  have hdraw : Triple (Stage .device root h (·.nonceCounter = 0) (DeviceChained root))
      (record (fun _ => noteDrawn (responderEph.map Prod.fst)) (ofOption () responderEph))
      (fun eph => Stage .device root h (fun _ => True) (Drawn eph.1)) (deviceFailed root h) := by
    refine Triple.record (fun ctx new eph ctx' hst hrun => ?_) fun ctx new _ ctx' hst hrun => ?_
    · obtain ⟨rfl, rfl⟩ := ofOption_eq_ok.mp hrun
      have hz : AtZero .device [.drawn eph.1] := by
        refine ⟨⟨?_, ?_⟩, ?_⟩ <;> simp
      exact hst.step hz trivial fun _ hs hi =>
        ⟨hs.inert (by simp [noteDrawn]) (by simp [noteDrawn]), Chained.append hi, _, rfl⟩
    · cases responderEph with
      | some eph => cases hrun
      | none => exact hst.quiet trivial fun _ _ => trivial
  refine (loggedMixDh_chained priv _ fun _ _ hi => hi).bind fun _ => ?_
  refine hdraw.bind fun eph => ?_
  refine (quietly_mixHash _ fun _ _ _ hi => hi).bind fun _ => ?_
  refine (loggedMixDh_new eph.1 _ fun ctx h hi => ⟨hi.1, ?_⟩).bind fun _ => ?_
  · obtain ⟨pre, rfl⟩ := hi.2
    exact inputNew_drawn
  refine (loggedMixDh_new eph.1 _ fun ctx h hi => ⟨hi.chained, unsalted_inputNew hi.unsalted⟩).bind
    fun _ => ?_
  refine (loggedEncryptAndHash_stage _).bind fun ack => ?_
  refine quietly_keeps _ fun ctx a ctx' h hrun hi => ?_
  split at hrun
  · cases hrun
  · cases hrun
    exact hi

/-- A handshake of the device, however it ends. -/
theorem loggedHandshakeBody_stage (hroot : lib.sha256 proto = some root)
    (controllers : ControllerStore) (responderEph : Option (Key × Key))
    (message : List UInt8) :
    Triple (Stage .device root h (fun _ => True) fun _ _ => True)
      (loggedHandshakeBody lib controllers responderEph message)
      (fun _ => Stage .device root h (fun _ => True) DeviceKept) (deviceFailed root h) := by
  refine (loggedIdentifyInitiator_stage hroot message).bind fun initiatorStatic => ?_
  refine (quietly_keeps _ fun ctx a ctx' h hrun hi => ?_).bind fun found => ?_
  · obtain ⟨-, rfl⟩ := ofOption_eq_ok.mp hrun
    exact hi
  refine (quietly_keeps get fun ctx a ctx' h hrun hi => ?_).bind fun ctx => ?_
  · cases hrun
    exact hi
  refine (loggedWriteResponse_stage _ _ _ _).bind fun response => ?_
  refine loggedSplitTransport_stage.bind fun _ => ?_
  refine Triple.record (fun ctx new a ctx' hst hrun => ?_) fun ctx new _ ctx' hst hrun => ?_
  · cases hrun
    exact hst.quiet trivial fun h hi _ => hi
  · cases hrun

end Device

-- ==================================================================== the host

section Host

variable {lib : Crypto} {U : NoiseIKInitiator → Prop} {I : NoiseIKInitiator → History → Prop}

/-- What a failure leaves of it: the object keeps what it had assigned. -/
def hostFailed (root : Key) (h : History) (_ : HostError) :
    NoiseIKInitiator × History → Prop :=
  Stage .host root h (fun _ => True) (HostKept root)

/-- The chaining key has salted nothing of the host's. -/
def HostNew (root : Key) (host : NoiseIKInitiator) (h : History) : Prop :=
  HostKept root host h ∧ Unsalted (· = .host) h host.ck

/-- The cipher key, if any, is a new one of `_mix_key`. -/
def HostSeals (root : Key) (host : NoiseIKInitiator) (h : History) : Prop :=
  HostNew root host h ∧ ∀ k, host.key = some k →
    (∃ d, .derived .host d ∈ h ∧ d.input ≠ [] ∧ k = d.second) ∧ sealed h k = []

theorem stage_hostFailed {s : NoiseIKInitiator × History} (hst : Stage .host root h U I s)
    (hI : ∀ host h, I host h → HostKept root host h) (e : HostError) : hostFailed root h e s :=
  ⟨hst.1, trivial, fun hg => ⟨(hst.2.2 hg).1, hI _ _ (hst.2.2 hg).2⟩⟩

/-- The four attributes it reads. -/
theorem HostKept.of_eq {host host' : NoiseIKInitiator} (hh : HostKept root host h)
    (hck : host'.ck = host.ck) (heph : host'.ephPriv = host.ephPriv)
    (hkey : host'.sendKey = host.sendKey) (hsent : host'.sendNonce = host.sendNonce) :
    HostKept root host' h where
  rooted := hh.rooted
  chained := hck ▸ hh.chained
  drawn e he := by
    rw [hck]
    exact hh.drawn e (heph ▸ he)
  sends k hk := by
    rw [hsent]
    exact hh.sends k (hkey ▸ hk)

/-- Calls that neither derive nor seal leave the host's side of it right. -/
theorem HostKept.inert {host : NoiseIKInitiator} (hh : HostKept root host h)
    (hderive : ∀ p d, .derived p d ∉ new) (hseal : ∀ p k n, .used p .sealing k n true ∉ new) :
    HostKept root host (h ++ new) where
  rooted := hh.rooted.append fun p d _ => hderive p d
  chained := hh.chained.append
  drawn e he := by
    obtain ⟨pre, post, rfl, hpost⟩ := hh.drawn e he
    refine ⟨pre, post ++ new, by simp, fun d hmem => hpost d ?_⟩
    exact (List.mem_append.mp hmem).resolve_right (hderive .host d)
  sends k hk := by
    obtain ⟨d, hmem, hsplit, hkey, hcount⟩ := hh.sends k hk
    refine ⟨d, List.mem_append_left _ hmem, hsplit, hkey, ?_⟩
    rw [sealed_append_of_not fun p n => hseal p k n, hcount]

/-- A new secret mixed in leaves the host's side of it right. -/
theorem HostKept.mixed {host : NoiseIKInitiator} {a first second : Key} {s : List UInt8}
    {key : Option Key} {nonce : Nat} (hh : HostKept root host h)
    (hu : Unsalted (· = .host) (h ++ noteMixed .host a host.ck s first second) first) :
    HostKept root { host with ck := first, key := key, nonce := nonce }
      (h ++ noteMixed .host a host.ck s first second) where
  rooted := mixed_rooted hh.rooted hh.chained
  chained := mixed_chained rfl
  drawn e he := by
    obtain ⟨pre, post, hsplit, -⟩ := hh.drawn e he
    rw [hsplit] at hu ⊢
    refine ⟨pre, post ++ noteMixed .host a host.ck s first second, by simp, ?_⟩
    intro d hmem hsalt
    exact absurd hsalt (hu .host d rfl (by simpa using .inr (List.mem_append.mp hmem)))
  sends k hk := by
    obtain ⟨d, hmem, hsplit, hkey, hcount⟩ := hh.sends k hk
    refine ⟨d, List.mem_append_left _ hmem, hsplit, hkey, ?_⟩
    rw [sealed_append_of_not (by simp [noteMixed]), hcount]

/-- `exchange` and `_mix_key` with their notes. -/
theorem loggedHostMixDh_run (priv pub : Key) (host : NoiseIKInitiator) (new : History) :
    loggedHostMixDh lib priv pub (host, new) = match exchange lib priv pub with
      | none => .error .library (host, new ++ [])
      | some shared => match lib.extractExpand host.ck shared.toList with
        | none => .error .library (host, new ++ [.shared priv shared.toList])
        | some (ck, key) =>
            .ok () ({ host with ck := ck, key := some key, nonce := 0 },
              new ++ noteMixed .host priv host.ck shared.toList ck key) := by
  unfold loggedHostMixDh
  cases exchange lib priv pub with
  | none => exact bind_error rfl
  | some shared =>
      refine (bind_ok rfl).trans ?_
      unfold loggedHostMixKey record
      cases hkdf : lib.extractExpand host.ck shared.toList with
      | none => simp [noteDerived, noteShared, withHistory, hostMixKey_none hkdf, hkdf]
      | some keys =>
          simp [noteDerived, noteShared, withHistory, hostMixKey_some hkdf, hkdf, noteMixed]

/-- A secret that is new for the host, mixed in: the chaining key it gives
has salted nothing of the host's, and, if the secret is new for
everybody, the cipher key has sealed nothing. -/
theorem loggedHostMixDh_stage (priv pub : Key)
    (hI : ∀ host h, I host h → HostKept root host h ∧ InputNew (· = .host) priv h host.ck) :
    Triple (Stage .host root h U I) (loggedHostMixDh lib priv pub)
      (fun _ => Stage .host root h (·.nonce = 0) (HostNew root)) (hostFailed root h) := by
  rintro ⟨host, new⟩ hst
  rw [loggedHostMixDh_run]
  cases exchange lib priv pub with
  | none =>
      show hostFailed root h .library (host, new ++ [])
      exact hst.quiet trivial fun _ hi => (hI _ _ hi).1
  | some shared =>
      dsimp only
      cases lib.extractExpand host.ck shared.toList with
      | none =>
          exact hst.step (atZero_shared _ _ _) trivial fun _ hs hi =>
            ⟨hs.inert (by simp) (by simp), (hI _ _ hi).1.inert (by simp) (by simp)⟩
      | some keys =>
          refine hst.step (atZero_mixed _ _ _ _ _ _) rfl fun hg hs hi => ?_
          obtain ⟨hh, hn⟩ := hI _ _ hi
          have hu := mixed_unsalted hh.rooted hh.chained hn hg (key_ne_nil shared)
          exact ⟨mixed_sound hs (chained_anyone hh.chained), hh.mixed hu, hu⟩

theorem loggedHostMixDh_new (priv pub : Key)
    (hI : ∀ host h, I host h → HostKept root host h ∧ InputNew (fun _ => True) priv h host.ck) :
    Triple (Stage .host root h U I) (loggedHostMixDh lib priv pub)
      (fun _ => Stage .host root h (·.nonce = 0) (HostSeals root)) (hostFailed root h) := by
  rintro ⟨host, new⟩ hst
  have hown : ∀ host h, I host h →
      HostKept root host h ∧ InputNew (· = .host) priv h host.ck := fun host h hi =>
    ⟨(hI host h hi).1, fun s hfresh hne => New.of_all ((hI host h hi).2 s hfresh hne)⟩
  have hstage : Triple (Stage .host root h U I) (loggedHostMixDh lib priv pub)
      (fun _ => Stage .host root h (·.nonce = 0) (HostNew root)) (hostFailed root h) :=
    loggedHostMixDh_stage priv pub hown
  have hmixed := hstage (host, new) hst
  rw [loggedHostMixDh_run] at hmixed ⊢
  cases hdh : exchange lib priv pub with
  | none =>
      rw [hdh] at hmixed
      exact hmixed
  | some shared =>
      rw [hdh] at hmixed
      dsimp only at hmixed ⊢
      cases hkdf : lib.extractExpand host.ck shared.toList with
      | none =>
          rw [hkdf] at hmixed
          exact hmixed
      | some keys =>
          rw [hkdf] at hmixed
          refine ⟨hmixed.1, hmixed.2.1, fun hg => ?_⟩
          obtain ⟨hs, hn⟩ := hmixed.2.2 hg
          refine ⟨hs, hn, fun k hk => ?_⟩
          obtain rfl := Option.some.inj hk
          dsimp only at hg ⊢
          rw [← List.append_assoc] at hg ⊢
          obtain ⟨hs₀, hi⟩ := hst.2.2 hg.of_append
          refine ⟨⟨⟨host.ck, shared.toList, keys.1, keys.2⟩, by simp [noteMixed],
            key_ne_nil shared, rfl⟩, ?_⟩
          exact mixed_unsealed hs₀ (hI _ _ hi).2 hg (key_ne_nil shared)

/-- A step that keeps those attributes and the history. -/
theorem quietly_hostKeeps {α : Type} (x : Host α)
    (hI : ∀ host h, I host h → HostKept root host h)
    (hx : ∀ host a host' h, x host = .ok a host' → I host h → I host' h)
    (hfail : ∀ host e host' h, x host = .error e host' → HostKept root host h →
      HostKept root host' h) :
    Triple (Stage .host root h (fun _ => True) I) (quietly x)
      (fun _ => Stage .host root h (fun _ => True) I) (hostFailed root h) :=
  Triple.record (fun _ _ _ _ hst hrun => hst.quiet trivial fun h hi => hx _ _ _ h hrun hi)
    fun _ _ _ _ hst hrun => hst.quiet trivial fun h hi => hfail _ _ _ h hrun (hI _ h hi)

theorem hostMixHash_leaves {data : List UInt8} (host : NoiseIKInitiator) :
    ∃ x, leaves (hostMixHash lib data) host = { host with h := x } := by
  unfold leaves hostMixHash
  cases lib.sha256 (host.h.toList ++ data) with
  | none => exact ⟨host.h, rfl⟩
  | some x => exact ⟨x, rfl⟩

/-- `_mix_hash` keeps what does not read the transcript hash. -/
theorem quietly_hostMixHash (data : List UInt8)
    (hI : ∀ host h, I host h → HostKept root host h)
    (hx : ∀ host x h, I host h → I { host with h := x } h) :
    Triple (Stage .host root h (fun _ => True) I) (quietly (hostMixHash lib data))
      (fun _ => Stage .host root h (fun _ => True) I) (hostFailed root h) := by
  refine quietly_hostKeeps _ hI (fun host _ host' h hrun hi => ?_)
    fun host _ host' h hrun hh => ?_
  · obtain ⟨x, hleft⟩ := @hostMixHash_leaves lib data host
    rw [leaves_ok hrun] at hleft
    exact hleft ▸ hx host x h hi
  · obtain ⟨x, hleft⟩ := @hostMixHash_leaves lib data host
    rw [leaves_error hrun] at hleft
    rw [hleft]
    exact hh.of_eq rfl rfl rfl rfl

/-- One use of the handshake's cipher. -/
def hostCipher (lib : Crypto) (op : Key → List UInt8 → List UInt8 → List UInt8 →
    Option (List UInt8)) (failed : HostError) (hashed : List UInt8 → List UInt8 → List UInt8)
    (input : List UInt8) : Host (List UInt8) := fun self =>
  match self.key with
  | none => .error .cipherKeyMissing self
  | some key =>
      match hostNoiseNonce self.nonce with
      | none => .error .nonceExhausted self
      | some nonce =>
          match op key nonce self.h.toList input with
          | none => .error failed self
          | some output =>
              (do hostMixHash lib (hashed input output); pure output : Host (List UInt8))
                { self with nonce := self.nonce + 1 }

theorem encryptAndHash_eq (plaintext : List UInt8) :
    encryptAndHash lib plaintext
      = hostCipher lib lib.encrypt .library (fun _ output => output) plaintext := rfl

theorem decryptAndHash_eq (ciphertext : List UInt8) :
    decryptAndHash lib ciphertext
      = hostCipher lib lib.decrypt .deviceAuthentication (fun input _ => input) ciphertext := rfl

/-- It changes the transcript hash and the counter alone. -/
theorem hostCipher_leaves {op : Key → List UInt8 → List UInt8 → List UInt8 →
    Option (List UInt8)} {failed : HostError} {hashed : List UInt8 → List UInt8 → List UInt8}
    (input : List UInt8) (host : NoiseIKInitiator) :
    ∃ x n, leaves (hostCipher lib op failed hashed input) host
      = { host with h := x, nonce := n } := by
  have hkeeps : ∀ r : EStateM.Result HostError NoiseIKInitiator (List UInt8),
      r = hostCipher lib op failed hashed input host →
      (∃ e, r = .error e host) ∨
        ∃ output, r = (do hostMixHash lib (hashed input output); pure output :
          Host (List UInt8)) { host with nonce := host.nonce + 1 } := by
    intro r hr
    unfold hostCipher at hr
    split at hr
    next => exact .inl ⟨_, hr⟩
    next =>
      split at hr
      next => exact .inl ⟨_, hr⟩
      next =>
        split at hr
        next => exact .inl ⟨_, hr⟩
        next output _ => exact .inr ⟨output, hr⟩
  rcases hkeeps _ rfl with ⟨e, hrun⟩ | ⟨output, hrun⟩
  · exact ⟨host.h, host.nonce, leaves_error hrun⟩
  · obtain ⟨x, hx⟩ := @hostMixHash_leaves lib (hashed input output)
      { host with nonce := host.nonce + 1 }
    refine ⟨x, host.nonce + 1, ?_⟩
    have hpure := leaves_bind_pure (hostMixHash lib (hashed input output)) output
      { host with nonce := host.nonce + 1 }
    rw [hx] at hpure
    rw [← hpure, leaves, hrun]
    rfl

theorem HostNew.of_eq {host host' : NoiseIKInitiator} (hn : HostNew root host h)
    (hck : host'.ck = host.ck) (heph : host'.ephPriv = host.ephPriv)
    (hkey : host'.sendKey = host.sendKey) (hsent : host'.sendNonce = host.sendNonce) :
    HostNew root host' h :=
  ⟨hn.1.of_eq hck heph hkey hsent, hck ▸ hn.2⟩

theorem HostNew.inert {host : NoiseIKInitiator} (hn : HostNew root host h)
    (hderive : ∀ p d, .derived p d ∉ new) (hseal : ∀ p k n, .used p .sealing k n true ∉ new) :
    HostNew root host (h ++ new) :=
  ⟨hn.1.inert hderive hseal, hn.2.append fun p d _ => hderive p d⟩

/-- Sealing under a key of `_mix_key` leaves the commands' count. -/
theorem HostKept.seal {host : NoiseIKInitiator} {k : Key} {n : Nat} {q : Party}
    {d : Derivation Key (List UInt8)} (hh : HostKept root host h) (hsym : Symbolic root h)
    (hd : .derived q d ∈ h) (hk : k = d.second) :
    HostKept root host (h ++ [.used .host .sealing k n true]) where
  rooted := hh.rooted.append (by simp)
  chained := hh.chained.append
  drawn e he := by
    obtain ⟨pre, post, rfl, hpost⟩ := hh.drawn e he
    exact ⟨pre, post ++ [.used .host .sealing k n true], by simp, by simpa using hpost⟩
  sends k' hk' := by
    obtain ⟨d', hmem, hsplit, hkey, hcount⟩ := hh.sends k' hk'
    refine ⟨d', List.mem_append_left _ hmem, hsplit, hkey, ?_⟩
    have hne : k' ≠ k := by
      rw [hkey, hk]
      exact hsym.separated _ (mem_derivations.mpr hmem) _ (mem_derivations.mpr hd)
    rw [sealed_append_of_not (by simp [hne]), hcount]

/-- The host seals its static key at the first nonce of a new key. -/
theorem loggedHostEncryptAndHash_stage (plaintext : List UInt8) :
    Triple (Stage .host root h (·.nonce = 0) (HostSeals root))
      (loggedHostEncryptAndHash lib plaintext)
      (fun _ => Stage .host root h (fun _ => True) (HostNew root)) (hostFailed root h) := by
  have hstep : ∀ (host : NoiseIKInitiator) (new : History),
      Stage .host root h (·.nonce = 0) (HostSeals root) (host, new) →
      Stage .host root h (fun _ => True) (HostNew root)
        (leaves (encryptAndHash lib plaintext) host, new ++ noteHostCipher .sealing
          (fun key nonce => lib.encrypt key nonce host.h.toList plaintext) host) := by
    intro host new hst
    obtain ⟨x, n, hleft⟩ := @hostCipher_leaves lib lib.encrypt .library (fun _ output => output)
      plaintext host
    rw [encryptAndHash_eq, hleft]
    rcases noteHostCipher_cases .sealing
      (fun key nonce => lib.encrypt key nonce host.h.toList plaintext) host with
      hnote | ⟨key, nonce, hkey, hnote⟩
    · rw [hnote]
      exact hst.quiet trivial fun h hi => hi.1.of_eq rfl rfl rfl rfl
    · rw [hnote, hst.2.1]
      refine hst.step (atZero_used _ _ _ _) trivial fun hg hs hi => ?_
      obtain ⟨⟨d, hd, hmix, hsecond⟩, hunsealed⟩ := hi.2 key hkey
      cases (lib.encrypt key nonce host.h.toList plaintext).isSome with
      | false =>
          refine ⟨hs.inert (by simp) (by simp), ?_⟩
          exact (hi.1.inert (by simp) (by simp)).of_eq rfl rfl rfl rfl
      | true =>
          refine ⟨hs.seal hd (hsecond ▸ .handshake .host .host d hmix) hunsealed
            fun p n hused => ?_, ?_, ?_⟩
          · have hmem := mem_sealed.mpr ⟨p, hused⟩
            rw [hunsealed] at hmem
            exact absurd hmem (by simp)
          · exact (hi.1.1.seal hg.of_append.1 hd hsecond).of_eq rfl rfl rfl rfl
          · exact hi.1.2.append (by simp)
  refine Triple.record (fun host new _ host' hst hrun => ?_) fun host new _ host' hst hrun => ?_
  · rw [← leaves_ok hrun]
    exact hstep host new hst
  · rw [← leaves_error hrun]
    exact stage_hostFailed (hstep host new hst) (fun _ _ hi => hi.1) _

/-- Opening the device's acknowledgement uses the cipher at its first
nonce. -/
theorem loggedHostDecryptAndHash_stage (ciphertext : List UInt8) :
    Triple (Stage .host root h (·.nonce = 0) (HostNew root))
      (loggedHostDecryptAndHash lib ciphertext)
      (fun _ => Stage .host root h (fun _ => True) (HostNew root)) (hostFailed root h) := by
  have hstep : ∀ (host : NoiseIKInitiator) (new : History),
      Stage .host root h (·.nonce = 0) (HostNew root) (host, new) →
      Stage .host root h (fun _ => True) (HostNew root)
        (leaves (decryptAndHash lib ciphertext) host, new ++ noteHostCipher .opening
          (fun key nonce => lib.decrypt key nonce host.h.toList ciphertext) host) := by
    intro host new hst
    obtain ⟨x, n, hleft⟩ := @hostCipher_leaves lib lib.decrypt .deviceAuthentication
      (fun input _ => input) ciphertext host
    rw [decryptAndHash_eq, hleft]
    rcases noteHostCipher_cases .opening
      (fun key nonce => lib.decrypt key nonce host.h.toList ciphertext) host with
      hnote | ⟨key, nonce, -, hnote⟩
    · rw [hnote]
      exact hst.quiet trivial fun h hi => hi.of_eq rfl rfl rfl rfl
    · rw [hnote, hst.2.1]
      refine hst.step (atZero_used _ _ _ _) trivial fun _ hs hi => ?_
      refine ⟨hs.inert (by simp) (by simp), ?_⟩
      exact (hi.inert (by simp) (by simp)).of_eq rfl rfl rfl rfl
  refine Triple.record (fun host new _ host' hst hrun => ?_) fun host new _ host' hst hrun => ?_
  · rw [← leaves_ok hrun]
    exact hstep host new hst
  · rw [← leaves_error hrun]
    exact stage_hostFailed (hstep host new hst) (fun _ _ hi => hi.1) _

/-- The half the host sends with has sealed nothing, if the host has not
made this Split before. -/
theorem commands_unsealed {ck first second : Key} (hs : Sound SealsUnder root h)
    (hsym : Symbolic root (h ++ [.derived .host ⟨ck, [], first, second⟩]))
    (hu : Unsalted (· = .host) h ck) :
    sealed (h ++ [.derived .host ⟨ck, [], first, second⟩]) first = [] := by
  rw [sealed_append_of_not (by simp)]
  refine List.eq_nil_iff_forall_not_mem.mpr fun n hmem => ?_
  obtain ⟨p, hused⟩ := mem_sealed.mp hmem
  obtain ⟨q, d, hd, hrole⟩ := hs.keyed p first n hused
  have hlast : (Party.host, (⟨ck, [], first, second⟩ : Derivation Key (List UInt8)))
      ∈ derivations (h ++ [.derived .host ⟨ck, [], first, second⟩]) :=
    mem_derivations.mpr (derived_mem_append_singleton.mpr (.inr ⟨rfl, rfl⟩))
  have hd' : (q, d) ∈ derivations (h ++ [.derived .host ⟨ck, [], first, second⟩]) :=
    mem_derivations.mpr (List.mem_append_left _ hd)
  cases hrole with
  | handshake => exact hsym.separated _ hlast _ hd' rfl
  | receipts => exact hsym.separated _ hlast _ hd' rfl
  | commands => exact hu.new _ d rfl hd (hsym.first_inj _ hd' _ hlast rfl)

/-- Split gives the host a sending key that has sealed nothing. -/
theorem loggedSplit_stage :
    Triple (Stage .host root h (fun _ => True) (HostNew root)) (loggedSplit lib)
      (fun _ => Stage .host root h (fun _ => True) (HostKept root)) (hostFailed root h) := by
  refine Triple.record (fun host new _ host' hst hrun => ?_) fun host new _ host' hst hrun => ?_
  · cases hkeys : lib.extractExpand host.ck [] with
    | none =>
        rw [split_none hkeys] at hrun
        cases hrun
    | some keys =>
      obtain ⟨first, second⟩ := keys
      rw [split_some hkeys] at hrun
      cases hrun
      have hz : AtZero .host [.derived .host ⟨host.ck, [], first, second⟩] := by
        refine ⟨⟨?_, ?_⟩, ?_⟩ <;> simp +contextual
      refine hst.step hz trivial fun hg hs hi => ?_
      have hh := hi.1
      refine ⟨hs.derived (chained_anyone hh.chained), hh.rooted.derived hh.chained,
        hh.chained.append, fun e he => ?_, fun k hk => ?_⟩
      · obtain ⟨pre, post, hat, hpost⟩ := hh.drawn e he
        rw [hat]
        refine ⟨pre, post ++ [.derived .host ⟨host.ck, [], first, second⟩], by
          simp [noteDerived], fun d hmem hsalt => ?_⟩
        rcases derived_mem_append_singleton.mp hmem with hmem | ⟨-, rfl⟩
        · exact hpost d hmem hsalt
        · rfl
      · obtain rfl := Option.some.inj hk
        exact ⟨⟨host.ck, [], first, second⟩, by simp [noteDerived], rfl, rfl,
          commands_unsealed hs hg.1 hi.2⟩
  · cases hkeys : lib.extractExpand host.ck [] with
    | none =>
        rw [split_none hkeys] at hrun
        cases hrun
        exact hst.quiet trivial fun _ hi => hi.1
    | some keys =>
        rw [split_some hkeys] at hrun
        cases hrun

/-- The first message: the host's `es` is a new input for everybody. -/
theorem loggedBeginHandshake_stage (ephPriv : Key) :
    Triple (Stage .host root h (fun _ => True) (HostKept root))
      (loggedBeginHandshake lib ephPriv)
      (fun _ => Stage .host root h (fun _ => True) (HostNew root)) (hostFailed root h) := by
  -- After the draw, which is the last call.
  let Drawn : NoiseIKInitiator → History → Prop := fun host h =>
    HostKept root host h ∧ ∃ pre, h = pre ++ [.drawn ephPriv]
  have hdraw : ∀ ephPub, Triple (Stage .host root h (fun _ => True) (HostKept root))
      (record (fun _ => noteDrawn (some ephPriv)) (modify fun self =>
        { self with ephPriv := some ephPriv, ephPub := some ephPub } : Host Unit))
      (fun _ => Stage .host root h (fun _ => True) Drawn) (hostFailed root h) := by
    refine fun ephPub => Triple.record (fun host new _ host' hst hrun => ?_)
      fun host new _ host' hst hrun => by cases hrun
    cases hrun
    have hz : AtZero .host [.drawn ephPriv] := by
      refine ⟨⟨?_, ?_⟩, ?_⟩ <;> simp
    refine hst.step hz trivial fun _ hs hi => ⟨hs.inert (by simp [noteDrawn]) (by
      simp [noteDrawn]), ⟨?_, hi.chained.append, fun e he => ?_, ?_⟩, _, rfl⟩
    · exact hi.rooted.append (by simp [noteDrawn])
    · obtain rfl := Option.some.inj he
      exact ⟨_, [], rfl, by simp⟩
    · exact (@HostKept.inert root _ _ host hi (by simp [noteDrawn]) (by simp [noteDrawn])).sends
  refine (quietly_hostKeeps _ (fun _ _ hi => hi) (fun host _ host' h hrun hi => ?_)
    fun host _ host' h hrun hh => ?_).bind fun ephPub => ?_
  · obtain ⟨-, rfl⟩ := ofOption_eq_ok.mp hrun
    exact hi
  · cases hpub : publicKey lib ephPriv with
    | some pub =>
        rw [hpub] at hrun
        cases hrun
    | none =>
        rw [hpub] at hrun
        cases hrun
        exact hh
  refine (hdraw ephPub).bind fun _ => ?_
  refine (quietly_hostKeeps get (fun _ _ hi => hi.1) (fun host _ host' h hrun hi => ?_)
    fun host _ host' h hrun hh => ?_).bind fun self => ?_
  · cases hrun
    exact hi
  · cases hrun
  refine Triple.bind ?_ fun _ => Triple.pure fun _ hst => hst
  refine (quietly_hostMixHash _ (fun _ _ hi => hi.1) fun host x h hi =>
    ⟨hi.1.of_eq rfl rfl rfl rfl, hi.2⟩).bind fun _ => ?_
  refine (loggedHostMixDh_new ephPriv _ fun host h hi => ⟨hi.1, ?_⟩).bind fun _ => ?_
  · obtain ⟨pre, rfl⟩ := hi.2
    exact inputNew_drawn
  refine (loggedHostEncryptAndHash_stage _).bind fun encryptedStatic => ?_
  refine Triple.bind ?_ fun _ => Triple.pure fun _ hst => hst
  refine (loggedHostMixDh_stage self.staticPriv _ fun host h hi =>
    ⟨hi.1, unsalted_inputNew hi.2⟩).weaken (fun _ hst => hst) fun _ _ hst => ?_
  exact ⟨hst.1, trivial, hst.2.2⟩

/-- The host's `ee` is a new input for the host: what it has derived since
it drew the key is from another chaining key or by Split. -/
theorem HostKept.inputNew {host : NoiseIKInitiator} {e : Key} (hh : HostKept root host h)
    (he : host.ephPriv = some e) : InputNew (· = .host) e h host.ck := by
  intro s hfresh hne p d hp hmem hsame
  obtain rfl : p = .host := hp
  obtain ⟨pre, post, rfl, hpost⟩ := hh.drawn e he
  rw [List.append_assoc, List.cons_append] at hfresh
  rcases List.mem_append.mp hmem with hmem | hmem
  · exact hfresh.new (List.mem_append_right _ List.mem_cons_self) _ d trivial hmem hsame
  · have hmem' : .derived .host d ∈ post := by simpa using hmem
    exact hne (hsame.2.symm.trans (hpost d hmem' hsame.1))

/-- The completion of a handshake, however it ends. -/
theorem loggedCompleteHandshake_stage (response : List UInt8) :
    Triple (Stage .host root h (fun _ => True) (HostKept root))
      (loggedCompleteHandshake lib response)
      (fun _ => Stage .host root h (fun _ => True) (HostKept root)) (hostFailed root h) := by
  have hget : Triple (Stage .host root h (fun _ => True) (HostKept root))
      (quietly (get : Host NoiseIKInitiator))
      (fun self => Stage .host root h (fun _ => True)
        fun host h => HostKept root host h ∧ host.ephPriv = self.ephPriv) (hostFailed root h) := by
    refine Triple.record (fun host new self host' hst hrun => ?_)
      fun host new _ host' hst hrun => by cases hrun
    cases hrun
    exact hst.quiet trivial fun h hi => ⟨hi, rfl⟩
  refine hget.bind fun self => ?_
  cases heph : self.ephPriv with
  | none => exact Triple.throw fun _ hst => stage_hostFailed hst (fun _ _ hi => hi.1) _
  | some ephPriv =>
      refine Triple.ite
        (fun _ => Triple.throw fun _ hst => stage_hostFailed hst (fun _ _ hi => hi.1) _)
        fun _ => ?_
      refine Triple.bind ?_ fun ack => Triple.ite
        (fun _ => Triple.throw fun _ hst => stage_hostFailed hst (fun _ _ hi => hi.1) _)
        fun _ => loggedSplit_stage
      refine (quietly_hostMixHash _ (fun _ _ hi => hi.1) fun host x h hi =>
        ⟨hi.1.of_eq rfl rfl rfl rfl, hi.2⟩).bind fun _ => ?_
      refine (loggedHostMixDh_stage ephPriv _ fun host h hi =>
        ⟨hi.1, hi.1.inputNew hi.2⟩).bind fun _ => ?_
      refine (loggedHostMixDh_stage self.staticPriv _ fun host h hi =>
        ⟨hi.1, unsalted_inputNew hi.2⟩).bind fun _ => ?_
      exact loggedHostDecryptAndHash_stage _

end Host

end PicoBridge
