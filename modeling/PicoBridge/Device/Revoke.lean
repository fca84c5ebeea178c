/-
Revocation over the life of a device: whether a revoked key can come back
through reboots, power cuts and later commits.

# The life of a device

`Power` is the device off, with its flash, or running. What happens to it
is a boot, a boot that loses power, a frame, power lost inside a frame's
flash operations, a core call of its own, or power switched off. A
running device that boots again has lost its RAM.

# The argument

`Sound` holds of every reachable state: what boots is counted from 1 and
a running device has a well-formed roster. A REVOKE that returns OK has
the new roster booted, so its generation is past 1 and the key is on
neither roster (`Shut`). From there the key comes back only with an
ADD of it: every commit is of a roster derived from the one in RAM, which
gains no key any other way (`candidate_spec`).
-/
import PicoBridge.Store.Reboot
import PicoBridge.Noise.Agreement
import PicoBridge.Device.Frame

namespace PicoBridge

open Lib (Machine)

-- ================================================================ the life

/-- The keys of the generated header. -/
structure HeaderKeys where
  recoveryAdminPublic : Key
  authorizedInitiatorPublic : Key
  deviceStaticPrivate : Key

/-- A device that is off, or running. -/
inductive Power
  | off (store : StoreFlash) (radio : Sector)
  | on (d : Device)

def Power.store : Power → StoreFlash
  | .off store _ => store
  | .on d => d.store

def Power.radio : Power → Sector
  | .off _ radio => radio
  | .on d => d.radio

/-- What happens to a device. -/
inductive Happening
  | boot (seedExec importExec : FlashExec)
  | bootCut (phase : SetupPhase) (cut : PowerCut)
  | frame (env : FrameEnv) (data : List UInt8)
  | frameCut (env : FrameEnv) (data : List UInt8) (cut : PowerCut)
  | core (call : CoreCall)
  | powerOff

variable (lib : Crypto) (keys : HeaderKeys)

/-- The state `noise_ik_init` leaves. -/
def bootNoise (deviceStaticPrivate : Key) : NoiseIkCtx :=
  match noiseIkInit lib deviceStaticPrivate with
  | .ok _ ctx => ctx
  | .error _ ctx => ctx

/-- The device at the head of its main loop. -/
def bootDevice (controllers : ControllerStore) (store : StoreFlash) (radio : Sector) :
    Device where
  core := bridgeCoreInit
  controllers := controllers
  noise := bootNoise lib keys.deviceStaticPrivate
  cmdAckStatus := 0
  store := store
  radio := radio

/-- `main` up to its loop: it ends where `controller_setup` fails. -/
def bootPower (w : Power) (seedExec importExec : FlashExec) : Power :=
  match controllerSetup w.store keys.recoveryAdminPublic keys.authorizedInitiatorPublic
      seedExec importExec with
  | (some controllers, store) => .on (bootDevice lib keys controllers store w.radio)
  | (none, store) => .off store w.radio

/-- One happening. A device that is off sees only boots. -/
def powerStep (w : Power) : Happening → Power
  | .boot seedExec importExec => bootPower lib keys w seedExec importExec
  | .bootCut phase cut =>
      .off (setupCut w.store keys.recoveryAdminPublic keys.authorizedInitiatorPublic phase cut)
        w.radio
  | .frame env data =>
      match w with
      | .off store radio => .off store radio
      | .on d => .on (commandProcessFrame lib d env data bridgeTransportResponseMax).2
  | .frameCut env data cut =>
      match w with
      | .off store radio => .off store radio
      | .on d => .off (frameCut lib d env data cut).1 (frameCut lib d env data cut).2
  | .core call =>
      match w with
      | .off store radio => .off store radio
      | .on d => .on { d with core := (coreOp d.core call).2 }
  | .powerOff => .off w.store w.radio

def powerMachine : Machine Power Happening Unit where
  step w i := (powerStep lib keys w i, [])

theorem powerMachine_boot (w : Power) (seedExec importExec : FlashExec) :
    ((powerMachine lib keys).step w (.boot seedExec importExec)).1
      = bootPower lib keys w seedExec importExec := rfl

-- ===================================================== what a life can hold

/-- A cut tears the erase of a commit only as flash does. -/
def CutTears (w : Power) : Happening → Prop
  | .bootCut phase cut =>
      SetupTears w.store keys.recoveryAdminPublic keys.authorizedInitiatorPublic phase cut
  | .frameCut _ data cut =>
      ∀ d p d₁ candidate, w = .on d → Dispatches lib d data p d₁ →
        controllerCandidate d₁ p = some candidate → EraseTears d.store candidate cut
  | _ => True

/-- An admin's ADD of the key, up to its commit. -/
def AddsKey (d₁ : Device) (p : List UInt8) (key : Key) : Prop :=
  byteOf p 0 = bleCmdControllerAdd ∧ keyAt p 2 = key ∧
    ∃ candidate, addCandidate d₁ p = .ok candidate

/-- A frame, cut or not, that carries one. -/
def Adds (key : Key) (w : Power) : Happening → Prop
  | .frame _ data => ∃ d p d₁, w = .on d ∧ Dispatches lib d data p d₁ ∧ AddsKey d₁ p key
  | .frameCut _ data _ => ∃ d p d₁, w = .on d ∧ Dispatches lib d data p d₁ ∧ AddsKey d₁ p key
  | _ => False

/-- A frame with a CONTROLLER_REVOKE of the slot that returns OK. -/
def Revokes (d : Device) (env : FrameEnv) (data : List UInt8) (slot : Fin 5) : Prop :=
  ∃ p d₁, Dispatches lib d data p d₁ ∧ byteOf p 0 = bleCmdControllerRevoke ∧
    (byteOf p 1).toNat = slot.val ∧ (bleHandleControllerRevoke d₁ env p).1 = .ok

/-- Whatever message authenticates the key, the handshake fails. -/
def Refuses (key : Key) (w : Power) : Prop :=
  ∀ d, w = .on d → ∀ responderEph message responseCap ctx,
    identifyInitiator lib message d.noise = .ok key ctx →
      (noiseIkHandshakeRespond lib d.controllers responderEph message responseCap d.noise).1
        = none

/-- `main` where `controller_setup` returns true. -/
theorem bootPower_on {lib : Crypto} {keys : HeaderKeys} {w : Power}
    {seedExec importExec : FlashExec} {controllers : ControllerStore} {store : StoreFlash}
    (h : controllerSetup w.store keys.recoveryAdminPublic keys.authorizedInitiatorPublic
      seedExec importExec = (some controllers, store)) :
    bootPower lib keys w seedExec importExec
      = .on (bootDevice lib keys controllers store w.radio) := by
  unfold bootPower
  rw [h]

-- ============================================================ the rosters

variable {lib keys} {d d₁ : Device} {env : FrameEnv} {data p : List UInt8} {key : Key}
  {candidate : ControllerStore}

/-- The two globals a controller command's roster is made from. -/
theorem controllerCandidate_congr (hram : d₁.controllers = d.controllers)
    (hslot : d₁.noise.noiseAuthenticatedSlot = d.noise.noiseAuthenticatedSlot) :
    controllerCandidate d₁ p = controllerCandidate d p := by
  unfold controllerCandidate addCandidate revokeCandidate
  rw [hram, hslot]

/-- Decrypting changes no global that a command reads. -/
theorem Dispatches.same (h : Dispatches lib d data p d₁) :
    d₁.controllers = d.controllers ∧ d₁.store = d.store ∧
      controllerCandidate d₁ p = controllerCandidate d p := by
  obtain ⟨-, -, noise, hopen, rfl⟩ := h
  obtain ⟨-, -, rfl⟩ := decryptPacket_ok hopen
  have hram : ({ d with noise := { d.noise with receiveNonce := d.noise.receiveNonce + 1 } }
    : Device).controllers = d.controllers := rfl
  exact ⟨rfl, rfl, controllerCandidate_congr hram rfl⟩

/-- An admin's ADD, up to its commit. -/
theorem addCandidate_ok (h : addCandidate d p = .ok candidate) :
    controllerStoreIsAdmin d.controllers d.noise.noiseAuthenticatedSlot = true ∧
      ∃ i, controllerStoreAdd d.controllers d.noise.noiseAuthenticatedSlot (keyAt p 2)
        (byteOf p 1) = .ok (candidate, i) := by
  unfold addCandidate at h
  split at h
  next => cases h
  next hadmin =>
    split at h
    next => cases h
    next =>
      split at h
      next => cases h
      next candidate' i hstore =>
        cases h
        exact ⟨not_not.mp fun hno => hadmin (.inr hno), i, hstore⟩

/-- An admin's REVOKE of another slot, up to its commit. -/
theorem revokeCandidate_ok (h : revokeCandidate d p = .ok candidate) :
    controllerStoreIsAdmin d.controllers d.noise.noiseAuthenticatedSlot = true ∧
      (byteOf p 1).toNat ≠ d.noise.noiseAuthenticatedSlot ∧
      controllerStoreRevoke d.controllers d.noise.noiseAuthenticatedSlot (byteOf p 1).toNat
        = .ok candidate := by
  unfold revokeCandidate at h
  split at h
  next => cases h
  next hadmin =>
    split at h
    next => cases h
    next hother =>
      split at h
      next => cases h
      next hstore =>
        cases h
        exact ⟨not_not.mp fun hno => hadmin (.inr hno), hother, hstore⟩

/-- A refusal is no OK. -/
theorem revokeCandidate_error {st : BridgeStatus} (h : revokeCandidate d p = .error st) :
    st ≠ .ok := by
  unfold revokeCandidate at h
  split at h
  next =>
    cases h
    decide
  next =>
    split at h
    next =>
      cases h
      decide
    next =>
      split at h
      next =>
        split at h <;> cases h <;> decide
      next => cases h

/-- A REVOKE that returns OK committed its candidate. -/
theorem revoke_ok (h : (bleHandleControllerRevoke d env p).1 = .ok) :
    ∃ candidate flash, revokeCandidate d p = .ok candidate ∧
      controllerStoreFlashCommit d.store candidate env.storeExec = (.ok (), flash) := by
  unfold bleHandleControllerRevoke at h
  cases hrevoke : revokeCandidate d p with
  | error st =>
      rw [hrevoke] at h
      exact absurd h (revokeCandidate_error hrevoke)
  | ok candidate =>
      rw [hrevoke] at h
      unfold commitCandidate at h
      rcases hcommit : controllerStoreFlashCommit d.store candidate env.storeExec with
        ⟨result, flash⟩
      dsimp only at h
      rw [hcommit] at h
      cases result with
      | error e => cases h
      | ok _ => exact ⟨candidate, flash, rfl, hcommit⟩

/-- A REVOKE whose candidate is committed returns OK. -/
theorem revoke_returns {flash : StoreFlash} (h : revokeCandidate d p = .ok candidate)
    (hcommit : controllerStoreFlashCommit d.store candidate env.storeExec = (.ok (), flash)) :
    (bleHandleControllerRevoke d env p).1 = .ok := by
  unfold bleHandleControllerRevoke commitCandidate
  rw [h]
  dsimp only
  rw [hcommit]

/-- The candidate an admin's REVOKE of another slot makes. -/
theorem revokeCandidate_returns {callerSlot : Nat} (hlen : p.length = 2)
    (hcaller : d.noise.noiseAuthenticatedSlot = callerSlot)
    (hadmin : controllerStoreIsAdmin d.controllers callerSlot = true)
    (hother : (byteOf p 1).toNat ≠ callerSlot)
    (h : controllerStoreRevoke d.controllers callerSlot (byteOf p 1).toNat = .ok candidate) :
    revokeCandidate d p = .ok candidate := by
  unfold revokeCandidate
  rw [hcaller, hadmin, if_neg (by simp [hlen]), if_neg hother, h]

/-- The roster a command commits: derived from the RAM roster, with a new
key only by an ADD of it. -/
theorem candidate_spec (h : controllerCandidate d p = some candidate) :
    Derives d.controllers candidate ∧
      ∀ key, candidate.Enrolled key → d.controllers.Enrolled key ∨ AddsKey d p key := by
  unfold controllerCandidate at h
  split at h
  next hcmd =>
    cases hadd : addCandidate d p with
    | error st =>
        rw [hadd] at h
        cases h
    | ok candidate' =>
        rw [hadd] at h
        cases h
        obtain ⟨-, i, hstore⟩ := addCandidate_ok hadd
        refine ⟨.add hstore, fun key hkey => ?_⟩
        obtain ⟨-, -, -, -, -, rfl⟩ := controllerStoreAdd_ok hstore
        rcases enrolled_of_added hkey with hold | hnew
        · exact .inl hold
        · exact .inr ⟨hcmd, hnew, _, hadd⟩
  next =>
    split at h
    next =>
      cases hrevoke : revokeCandidate d p with
      | error st =>
          rw [hrevoke] at h
          cases h
      | ok candidate' =>
          rw [hrevoke] at h
          cases h
          obtain ⟨-, -, hstore⟩ := revokeCandidate_ok hrevoke
          refine ⟨.revoke hstore, fun key hkey => .inl ?_⟩
          obtain ⟨i, -, -, -, rfl⟩ := controllerStoreRevoke_ok hstore
          exact enrolled_of_cleared hkey
    next => cases h

/-- The rosters after a commit: flash as after any attempt, and RAM as it
was or, once flash boots it, the candidate. -/
theorem rosterAfter_spec (hok : RosterOk candidate.slots) (env : FrameEnv) :
    let r := rosterAfter d env (some candidate)
    Attempted d.store candidate r.2 ∧
      (r.1 = d.controllers ∨ r.1 = candidate ∧ bootExisting r.2 = .ok candidate) := by
  have hattempted := attempted_commit d.store hok env.storeExec
  unfold rosterAfter
  rcases hcommit : controllerStoreFlashCommit d.store candidate env.storeExec with
    ⟨result, flash⟩
  rw [hcommit] at hattempted
  dsimp only
  rw [hcommit]
  cases result with
  | ok _ => exact ⟨hattempted, .inr ⟨rfl, commit_boots hok hcommit⟩⟩
  | error e => exact ⟨hattempted, .inl rfl⟩

-- ============================================================ sound states

/-- What holds in every reachable state. -/
def Sound : Power → Prop
  | .off store _ => Counted store
  | .on d => Counted d.store ∧ RosterOk d.controllers.slots ∧
      ∃ booted, bootExisting d.store = .ok booted

theorem Sound.counted {w : Power} (h : Sound w) : Counted w.store := by
  cases w with
  | off store radio => exact h
  | on d => exact h.1

/-- A commit keeps the flash counted and bootable. -/
theorem Attempted.sound {flash flash' : StoreFlash} {store booted : ControllerStore}
    (h : Attempted flash store flash') (hcounted : Counted flash)
    (hboot : bootExisting flash = .ok booted) :
    Counted flash' ∧ ∃ booted', bootExisting flash' = .ok booted' := by
  refine ⟨h.counted hcounted fun e he => ?_, ?_⟩
  · rw [hboot] at he
    cases he
  · obtain ⟨booted', hbooted', -⟩ := h.keeps booted hboot
    exact ⟨booted', hbooted'⟩

theorem sound_frame (h : Sound (.on d)) (env : FrameEnv) (data : List UInt8) (respCap : Nat) :
    Sound (.on (commandProcessFrame lib d env data respCap).2) := by
  obtain ⟨hcounted, hok, booted, hboot⟩ := h
  rcases frame_rosters lib d env data respCap with hsame | ⟨p, d₁, hdispatch, hrosters⟩
  · obtain ⟨hram, hflash⟩ := Prod.mk.inj hsame
    show Counted _ ∧ RosterOk _ ∧ ∃ booted, _
    rw [hram, hflash]
    exact ⟨hcounted, hok, booted, hboot⟩
  · obtain ⟨hram₁, hflash₁, -⟩ := hdispatch.same
    have hram := congrArg Prod.fst hrosters
    have hflash := congrArg Prod.snd hrosters
    dsimp only at hram hflash
    show Counted _ ∧ RosterOk _ ∧ ∃ booted, _
    rw [hram, hflash]
    cases hcandidate : controllerCandidate d₁ p with
    | none =>
        show Counted d₁.store ∧ RosterOk d₁.controllers.slots ∧
          ∃ booted, bootExisting d₁.store = .ok booted
        rw [hram₁, hflash₁]
        exact ⟨hcounted, hok, booted, hboot⟩
    | some candidate =>
        have hderives := (candidate_spec hcandidate).1
        rw [hram₁] at hderives
        have hok' := hderives.rosterOk hok
        obtain ⟨hattempted, hor⟩ := rosterAfter_spec (d := d₁) hok' env
        rw [hflash₁] at hattempted
        obtain ⟨hcounted', hbooted'⟩ := hattempted.sound hcounted hboot
        refine ⟨hcounted', ?_, hbooted'⟩
        rcases hor with hold | ⟨hnew, -⟩
        · rw [hold, hram₁]
          exact hok
        · rw [hnew]
          exact hok'

variable (lib) in
/-- The flash after power was lost inside a frame. -/
theorem frameCut_cases (d : Device) (env : FrameEnv) (data : List UInt8) (cut : PowerCut) :
    (frameCut lib d env data cut).1 = d.store ∨
      ∃ p d₁ candidate, Dispatches lib d data p d₁ ∧
        controllerCandidate d₁ p = some candidate ∧
        (frameCut lib d env data cut).1 = commitCut d.store candidate cut := by
  unfold frameCut
  cases hframe : framePlaintext lib d.noise data with
  | none => exact .inl rfl
  | some p =>
      obtain ⟨d₁, hdispatch⟩ := framePlaintext_iff.mp hframe
      cases hcandidate : controllerCandidate d p with
      | none =>
          left
          show (commandCut d env p cut).1 = d.store
          unfold commandCut
          rw [hcandidate]
      | some candidate =>
          refine .inr ⟨p, d₁, candidate, hdispatch, ?_, ?_⟩
          · rw [hdispatch.same.2.2]
            exact hcandidate
          · show (commandCut d env p cut).1 = _
            unfold commandCut
            rw [hcandidate]

theorem sound_step {w : Power} {i : Happening} (h : Sound w) (htears : CutTears lib keys w i) :
    Sound (powerStep lib keys w i) := by
  cases i with
  | boot seedExec importExec =>
      have hcounted := setup_counted keys.recoveryAdminPublic keys.authorizedInitiatorPublic
        h.counted seedExec importExec
      unfold powerStep bootPower
      dsimp only
      rcases hsetup : controllerSetup w.store keys.recoveryAdminPublic
        keys.authorizedInitiatorPublic seedExec importExec with ⟨result, store⟩
      rw [hsetup] at hcounted
      cases result with
      | none => exact hcounted
      | some controllers =>
          have hbooted := setup_boots hsetup
          exact ⟨hcounted, bootExisting_roster hbooted, controllers, hbooted⟩
  | bootCut phase cut => exact setupCut_counted h.counted htears
  | frame env data =>
      cases w with
      | off store radio => exact h
      | on d => exact sound_frame h env data _
  | frameCut env data cut =>
      cases w with
      | off store radio => exact h
      | on d =>
          obtain ⟨hcounted, hok, booted, hboot⟩ := h
          show Counted (frameCut lib d env data cut).1
          rcases frameCut_cases lib d env data cut with
            hsame | ⟨p, d₁, candidate, hdispatch, hcandidate, hcut⟩
          · rw [hsame]
            exact hcounted
          · have hderives := (candidate_spec hcandidate).1
            rw [hdispatch.same.1] at hderives
            rw [hcut]
            have hattempted := attempted_commitCut (hderives.rosterOk hok)
              (htears d p d₁ candidate rfl hdispatch hcandidate)
            exact (hattempted.sound hcounted hboot).1
  | core call =>
      cases w with
      | off store radio => exact h
      | on d => exact h
  | powerOff => exact h.counted

-- ============================================================= shut states

/-- The key is on neither roster, and the import is over. -/
def Shut (key : Key) : Power → Prop
  | .off store _ => Barred key store
  | .on d => Barred key d.store ∧ RosterOk d.controllers.slots ∧ ¬d.controllers.Enrolled key

theorem Shut.barred {w : Power} (h : Shut key w) : Barred key w.store := by
  cases w with
  | off store radio => exact h
  | on d => exact h.1

theorem shut_frame (h : Shut key (.on d)) {env : FrameEnv} {data : List UInt8}
    (hno : ¬Adds lib key (.on d) (.frame env data)) (respCap : Nat) :
    Shut key (.on (commandProcessFrame lib d env data respCap).2) := by
  obtain ⟨hbarred, hok, hkey⟩ := h
  rcases frame_rosters lib d env data respCap with hsame | ⟨p, d₁, hdispatch, hrosters⟩
  · obtain ⟨hram, hflash⟩ := Prod.mk.inj hsame
    show Barred key _ ∧ RosterOk _ ∧ ¬ControllerStore.Enrolled _ key
    rw [hram, hflash]
    exact ⟨hbarred, hok, hkey⟩
  · obtain ⟨hram₁, hflash₁, -⟩ := hdispatch.same
    have hram := congrArg Prod.fst hrosters
    have hflash := congrArg Prod.snd hrosters
    dsimp only at hram hflash
    show Barred key _ ∧ RosterOk _ ∧ ¬ControllerStore.Enrolled _ key
    rw [hram, hflash]
    cases hcandidate : controllerCandidate d₁ p with
    | none =>
        show Barred key d₁.store ∧ RosterOk d₁.controllers.slots ∧ ¬d₁.controllers.Enrolled key
        rw [hram₁, hflash₁]
        exact ⟨hbarred, hok, hkey⟩
    | some candidate =>
        obtain ⟨hderives, henrolled⟩ := candidate_spec hcandidate
        rw [hram₁] at hderives
        have hok' := hderives.rosterOk hok
        have hkey' : ¬candidate.Enrolled key := by
          intro hlisted
          rcases henrolled key hlisted with hold | hadds
          · rw [hram₁] at hold
            exact hkey hold
          · exact hno ⟨d, p, d₁, rfl, hdispatch, hadds⟩
        obtain ⟨hattempted, hor⟩ := rosterAfter_spec (d := d₁) hok' env
        rw [hflash₁] at hattempted
        refine ⟨hattempted.barred hbarred hkey', ?_⟩
        rcases hor with hold | ⟨hnew, -⟩
        · rw [hold, hram₁]
          exact ⟨hok, hkey⟩
        · rw [hnew]
          exact ⟨hok', hkey'⟩

theorem shut_step {w : Power} {i : Happening} (h : Shut key w)
    (hguard : CutTears lib keys w i ∧ ¬Adds lib key w i) :
    Shut key (powerStep lib keys w i) := by
  obtain ⟨htears, hno⟩ := hguard
  cases i with
  | boot seedExec importExec =>
      obtain ⟨booted, hsetup, hok, hkey⟩ := setup_barred keys.recoveryAdminPublic
        keys.authorizedInitiatorPublic h.barred seedExec importExec
      unfold powerStep bootPower
      dsimp only
      rw [hsetup]
      exact ⟨h.barred, hok, hkey⟩
  | bootCut phase cut =>
      show Barred key (setupCut _ _ _ phase cut)
      rw [setupCut_barred h.barred]
      exact h.barred
  | frame env data =>
      cases w with
      | off store radio => exact h
      | on d => exact shut_frame h hno _
  | frameCut env data cut =>
      cases w with
      | off store radio => exact h
      | on d =>
          obtain ⟨hbarred, hok, hkey⟩ := h
          show Barred key (frameCut lib d env data cut).1
          rcases frameCut_cases lib d env data cut with
            hsame | ⟨p, d₁, candidate, hdispatch, hcandidate, hcut⟩
          · rw [hsame]
            exact hbarred
          · obtain ⟨hderives, henrolled⟩ := candidate_spec hcandidate
            rw [hdispatch.same.1] at hderives henrolled
            rw [hcut]
            have hattempted := attempted_commitCut (hderives.rosterOk hok)
              (htears d p d₁ candidate rfl hdispatch hcandidate)
            refine hattempted.barred hbarred fun hlisted => ?_
            rcases henrolled key hlisted with hold | hadds
            · exact hkey hold
            · exact hno ⟨d, p, d₁, rfl, hdispatch, hadds⟩
  | core call =>
      cases w with
      | off store radio => exact h
      | on d => exact h
  | powerOff => exact h.barred

/-- A device whose RAM roster does not list a key refuses it. -/
theorem Shut.refuses {w : Power} (h : Shut key w) : Refuses lib key w := by
  rintro d rfl responderEph message responseCap ctx hid
  rcases hrespond : noiseIkHandshakeRespond lib d.controllers responderEph message responseCap
    d.noise with ⟨response, ctx'⟩
  cases response with
  | none => rfl
  | some response =>
      obtain ⟨-, key', ctx₁, slot, role, hid', hfind, -⟩ := handshakeRespond_ok hrespond
      rw [hid] at hid'
      cases hid'
      exact absurd (controllerStoreFind_isOk.mp ⟨_, hfind⟩) h.2.2

-- ============================================================== the revoke

/-- What a REVOKE that returns OK leaves. -/
structure Revoked (d : Device) (slot : Fin 5) (d' : Device) : Prop where
  used : (d.controllers.slots slot).used
  roster : d'.controllers = d.controllers.rewrite slot emptySlot
  boots : bootExisting d'.store = .ok d'.controllers
  newer : ∀ booted, bootExisting d.store = .ok booted →
    booted.generation < d'.controllers.generation

theorem revoked_frame {slot : Fin 5} (h : Sound (.on d)) (hrevoke : Revokes lib d env data slot)
    (respCap : Nat) : Revoked d slot (commandProcessFrame lib d env data respCap).2 := by
  obtain ⟨-, hok, booted, hboot⟩ := h
  obtain ⟨p, d₁, hdispatch, hcmd, hslot, hstatus⟩ := hrevoke
  obtain ⟨hram₁, hflash₁, -⟩ := hdispatch.same
  obtain ⟨candidate, flash, hrevoke, hcommit⟩ := revoke_ok hstatus
  have hcandidate : controllerCandidate d₁ p = some candidate := by
    unfold controllerCandidate
    rw [if_neg (by rw [hcmd]; decide), if_pos hcmd, hrevoke]
    rfl
  have hrosters := afterCommand_rosters lib d₁ env p respCap
  dsimp only at hrosters
  rw [hcandidate, ← frame_dispatched hdispatch env respCap] at hrosters
  have hafter : rosterAfter d₁ env (some candidate) = (candidate, flash) := by
    unfold rosterAfter
    dsimp only
    rw [hcommit]
  rw [hafter] at hrosters
  have hram : (commandProcessFrame lib d env data respCap).2.controllers = candidate :=
    congrArg Prod.fst hrosters
  have hflash : (commandProcessFrame lib d env data respCap).2.store = flash :=
    congrArg Prod.snd hrosters
  obtain ⟨-, -, hstore⟩ := revokeCandidate_ok hrevoke
  rw [hram₁, hslot] at hstore
  obtain ⟨i, hi, -, hused, rfl⟩ := controllerStoreRevoke_ok hstore
  obtain rfl := Fin.ext hi
  have hok' := rosterOk_revoke hok hstore
  rw [hflash₁] at hcommit
  have hboots := boots_commit hboot hok' env.storeExec
  rw [hcommit] at hboots
  obtain ⟨hbooted, hlt⟩ := hboots.2 rfl
  refine ⟨hused, hram, ?_, fun booted' hbooted' => ?_⟩
  · rw [hflash, hram]
    exact hbooted
  · rw [hboot] at hbooted'
    cases hbooted'
    rw [hram]
    exact hlt

/-- From there the key is shut out. -/
theorem Revoked.shut {slot : Fin 5} {d' : Device} (h : Sound (.on d)) (hr : Revoked d slot d') :
    Shut (d.controllers.slots slot).publicKey (.on d') := by
  obtain ⟨hcounted, hok, booted, hboot⟩ := h
  have hkey : ¬d'.controllers.Enrolled (d.controllers.slots slot).publicKey := by
    rw [hr.roster]
    exact cleared_enrolled hok hr.used
  have hgen : 2 ≤ d'.controllers.generation := by
    have hone := UInt32.le_iff_toNat_le.mp (hcounted booted hboot)
    have hlt := UInt32.lt_iff_toNat_lt.mp (hr.newer booted hboot)
    rw [UInt32.le_iff_toNat_le]
    have h1 : (1 : UInt32).toNat = 1 := rfl
    have h2 : (2 : UInt32).toNat = 2 := rfl
    omega
  exact ⟨⟨_, hr.boots, hgen, hkey⟩, bootExisting_roster hr.boots, hkey⟩

/-- Revocation is effective and permanent. From flash as it is delivered,
after any life, when a REVOKE of a slot returns OK: every other key is
found in its slot under its role, flash boots the new roster, and from
then on no handshake of the revoked key succeeds, whatever happens,
until an ADD of that key. -/
theorem revoked_stays_out (keys : HeaderKeys) (radio : Sector) {before : List Happening}
    (hbefore : (powerMachine lib keys).StepsMeet (CutTears lib keys) (.off erasedFlash radio)
      before)
    {d : Device} (hd : (powerMachine lib keys).final (.off erasedFlash radio) before = .on d)
    {env : FrameEnv} {data : List UInt8} {slot : Fin 5} (hrevoke : Revokes lib d env data slot) :
    let key := (d.controllers.slots slot).publicKey
    let d' := (commandProcessFrame lib d env data bridgeTransportResponseMax).2
    (∀ other, other ≠ key →
        controllerStoreFind d'.controllers other = controllerStoreFind d.controllers other) ∧
      bootExisting d'.store = .ok d'.controllers ∧
      ∀ after, (powerMachine lib keys).StepsMeet
          (fun w i => CutTears lib keys w i ∧ ¬Adds lib key w i) (.on d') after →
        Refuses lib key ((powerMachine lib keys).final (.on d') after) := by
  intro key d'
  have hsound : Sound (.on d) := by
    have hstart : Sound (.off erasedFlash radio) := counted_erased
    have := (powerMachine lib keys).run_inv (G := CutTears lib keys) (P := fun w _ => Sound w)
      (fun w _ i hw htears => sound_step hw htears) before _ [] hstart hbefore
    rwa [hd] at this
  have hrevoked := revoked_frame hsound hrevoke bridgeTransportResponseMax
  refine ⟨fun other hother => ?_, hrevoked.boots, fun after hafter => ?_⟩
  · rw [hrevoked.roster]
    exact controllerStoreFind_cleared hother
  · refine Shut.refuses ?_
    exact (powerMachine lib keys).run_inv (P := fun w _ => Shut key w)
      (fun w _ i hw hguard => shut_step hw hguard) after _ [] (hrevoked.shut hsound) hafter

-- ============================================================== one life

/-- A header: the recovery admin has private key 2, the first controller
6 and the device 1. -/
def benchProvisioning : Provisioning :=
  ⟨toyPublic (tagKey 2), toyPublic (tagKey 6), by decide +kernel, by decide +kernel,
    by decide +kernel⟩

def benchKeys : HeaderKeys :=
  ⟨benchProvisioning.recovery, benchProvisioning.initiator, tagKey 1⟩

/-- The flash after the first boot. -/
def benchFlash : StoreFlash :=
  ⟨controllerStoreEncode benchProvisioning.seed, controllerStoreEncode benchProvisioning.imported⟩

/-- The device after the first boot. -/
def bootedBench : Device :=
  bootDevice (toyCrypto none) benchKeys benchProvisioning.imported benchFlash erasedSector

/-- What a frame meets when the responder's ephemeral private key is 4. -/
def benchEnv : FrameEnv :=
  ⟨0, false, .ok, .ok, some (tagKey 4, toyPublic (tagKey 4)), none⟩

theorem bench_setup :
    controllerSetup erasedFlash benchProvisioning.recovery benchProvisioning.initiator .ok .ok
      = (some benchProvisioning.imported,
        ⟨controllerStoreEncode benchProvisioning.seed,
          controllerStoreEncode benchProvisioning.imported⟩) :=
  setup_import (bootOrSeed_erased benchProvisioning) (seed_needsImport benchProvisioning)
    (add_initiator benchProvisioning) (import_commit benchProvisioning recordValid_erased)

theorem bench_boots :
    bootPower (toyCrypto none) benchKeys (.off erasedFlash erasedSector) .ok .ok
      = .on bootedBench := bootPower_on bench_setup

/-- A device with private key 1 and a controller of its roster open a
session. -/
theorem bench_answers {d : Device} (hid : Identity d.noise (tagKey 1) (toyPublic (tagKey 1)))
    {tag : UInt8} {slot : Fin 5} {role : UInt8}
    (hfind : controllerStoreFind d.controllers (toyPublic (tagKey tag)) = .ok (slot, role)) :
    ∃ data host response noise, IsHandshake data ∧
      noiseIkHandshakeRespond (toyCrypto none) d.controllers benchEnv.responderEph (data.drop 1)
        (bridgeTransportResponseMax - 1) d.noise = (some response, noise) ∧
      powerStep (toyCrypto none) benchKeys (.on d) (.frame benchEnv data)
        = .on { d with noise := noise } ∧
      noise.authenticatedSlot = slot.val ∧ noise.authenticatedRole = role ∧
      Paired host noise := by
  have hpair : ∀ n, (toyCrypto none).KeyPair (tagKey n) (toyPublic (tagKey n)) := fun _ => rfl
  obtain ⟨c, _, _, _, _, hopened⟩ :=
    host_opens toyCrypto_lawful (hpair tag) (hpair 3) (toyPublic (tagKey 1))
  obtain ⟨response, noise, host, hrespond, -, hslot, hrole, -, hpaired⟩ :=
    hopened.answered toyCrypto_lawful (hpair 1) (hpair tag) (hpair 3) (hpair 4) hid
      (Nat.le_refl 53) hfind
  let message := (toyPublic (tagKey 3)).toList ++ c
  have hhandshake : IsHandshake (bleCmdNoise :: message) :=
    ⟨rfl, by rw [List.length_cons, (handshakeRespond_ok hrespond).1]; rfl⟩
  refine ⟨bleCmdNoise :: message, host, response, noise, hhandshake, hrespond, ?_, hslot, hrole,
    hpaired⟩
  show Power.on _ = _
  rcases frame_cases (toyCrypto none) d benchEnv (bleCmdNoise :: message)
    bridgeTransportResponseMax with ⟨-, hnot, -⟩ | ⟨-, _, hframe⟩ | ⟨p, d₁, hdispatch, -⟩
  · exact absurd hhandshake hnot
  · have hsame : noiseIkHandshakeRespond (toyCrypto none) d.controllers
        benchEnv.responderEph ((bleCmdNoise :: message).drop 1) (bridgeTransportResponseMax - 1)
        d.noise = (some response, noise) := hrespond
    rw [hframe, hsame]
  · exact absurd (hhandshake.1.symm.trans hdispatch.1) (by decide)

/-- The recovery admin opens a session, in slot 0. -/
theorem bench_session : ∃ data host noise,
    powerStep (toyCrypto none) benchKeys (.on bootedBench) (.frame benchEnv data)
        = .on { bootedBench with noise := noise } ∧
      noise.authenticatedSlot = 0 ∧ Paired host noise := by
  have hfind : controllerStoreFind bootedBench.controllers (toyPublic (tagKey 2))
      = .ok (0, controllerRoleRecoveryAdmin) := by decide +kernel
  have hid : Identity bootedBench.noise (tagKey 1) (toyPublic (tagKey 1)) :=
    ⟨by decide +kernel, by decide +kernel, by decide +kernel⟩
  obtain ⟨data, host, _, noise, -, -, hstep, hslot, -, hpaired⟩ := bench_answers hid hfind
  exact ⟨data, host, noise, hstep, hslot, hpaired⟩

/-- In a new session every command that fits can be sent. -/
theorem bench_sends_command {host : NoiseIKInitiator} {d : Device}
    (hpaired : Paired host d.noise) {p : List UInt8} (hp : p.length ≤ noiseIkMaxPlaintext) :
    ∃ data, ¬IsHandshake data ∧ Dispatches (toyCrypto none) d data p
      { d with noise := { d.noise with receiveNonce := d.noise.receiveNonce + 1 } } := by
  have hready : host.isReady = true := by
    rw [NoiseIKInitiator.isReady, hpaired.toDevice, hpaired.toHost]
    rfl
  have hcount : host.sendNonce = d.noise.receiveNonce.toNat := by
    rw [hpaired.hostSend, hpaired.deviceReceive]
    rfl
  obtain ⟨frame, host', hencrypt⟩ := encryptPacket_returns toyCrypto_lawful hready hcount p
  obtain ⟨packet, rfl, hlen, hopen⟩ := decryptPacket_encryptPacket toyCrypto_lawful hpaired.ready
    hpaired.toDevice hcount (by rw [hpaired.deviceReceive]; decide) hp hencrypt
  refine ⟨cmdEncrypted :: packet, fun h => ?_, rfl, ?_, _, hopen, rfl⟩
  · exact absurd (show cmdEncrypted = bleCmdNoise from h.1) (by decide)
  · rw [List.length_cons]
    omega

/-- The roster without the first controller, committed. -/
def benchCleared : ControllerStore := benchProvisioning.imported.rewrite 1 emptySlot

theorem bench_revoke :
    controllerStoreRevoke benchProvisioning.imported 0 1 = .ok benchCleared := by
  have hadmin : controllerStoreIsAdmin benchProvisioning.imported 0 = true := by decide +kernel
  have hused : (benchProvisioning.imported.slots 1).used := by decide +kernel
  unfold controllerStoreRevoke
  rw [if_neg (by decide), dif_pos (by decide), hadmin, if_neg (not_not.mpr rfl),
    if_neg (by decide)]
  exact if_neg (not_not.mpr hused)

theorem bench_commit : controllerStoreFlashCommit benchFlash benchCleared .ok
    = (.ok (), ⟨controllerStoreEncode benchCleared,
        controllerStoreEncode benchProvisioning.imported⟩) := by
  have hok := rosterOk_revoke (imported_rosterOk benchProvisioning) bench_revoke
  have hrecord := recordValid_encode ((rosterValid_iff _).mpr hok)
  have hne : benchProvisioning.imported.generation ≠ benchCleared.generation := by
    show (2 : UInt32) ≠ 3
    decide
  have hold : benchProvisioning.seed.generation ≠ benchProvisioning.imported.generation := by
    show (1 : UInt32) ≠ 2
    decide
  have hge : benchCleared.generation ≥ benchProvisioning.imported.generation := by
    show (3 : UInt32) ≥ 2
    decide
  exact commit_ok
    (commitTarget_a (boot_imported benchProvisioning) (recordValid_seed benchProvisioning) hne hold)
    rfl (boot_first hrecord (recordValid_imported benchProvisioning) hge)

/-- And revokes slot 1. -/
theorem bench_revokes {host : NoiseIKInitiator} {noise : NoiseIkCtx} (hpaired : Paired host noise)
    (hslot : noise.authenticatedSlot = 0) :
    ∃ data, Revokes (toyCrypto none) { bootedBench with noise := noise } benchEnv data 1 := by
  obtain ⟨data, -, hdispatch⟩ := @bench_sends_command host { bootedBench with noise := noise }
    hpaired [bleCmdControllerRevoke, 1] (by decide)
  refine ⟨data, _, _, hdispatch, rfl, rfl, ?_⟩
  refine revoke_returns ?_ bench_commit
  have hadmin : controllerStoreIsAdmin benchProvisioning.imported 0 = true := by
    decide +kernel
  have hcaller : ({ noise with receiveNonce := noise.receiveNonce + 1 } :
      NoiseIkCtx).noiseAuthenticatedSlot = 0 := by
    rw [NoiseIkCtx.noiseAuthenticatedSlot, hpaired.ready, if_pos rfl, hslot]
  exact revokeCandidate_returns rfl hcaller hadmin (by decide) bench_revoke

/-- The first controller, revoked by the recovery admin, is refused after
the next boot. -/
theorem revoked_stays_out_bench : ∃ d env data,
    Revokes (toyCrypto none) d env data 1 ∧
      (d.controllers.slots 1).publicKey = toyPublic (tagKey 6) ∧
      Refuses (toyCrypto none) (toyPublic (tagKey 6))
        ((powerMachine (toyCrypto none) benchKeys).final
          (.on (commandProcessFrame (toyCrypto none) d env data bridgeTransportResponseMax).2)
          [.powerOff, .boot .ok .ok]) := by
  obtain ⟨first, host, noise, hstep, hslot, hpaired⟩ := bench_session
  obtain ⟨data, hrevokes⟩ := bench_revokes hpaired hslot
  have hboot : ((powerMachine (toyCrypto none) benchKeys).step (.off erasedFlash erasedSector)
      (.boot .ok .ok)).1 = .on bootedBench := by
    rw [powerMachine_boot, bench_boots]
  have hfinal : (powerMachine (toyCrypto none) benchKeys).final (.off erasedFlash erasedSector)
      [.boot .ok .ok, .frame benchEnv first] = .on { bootedBench with noise := noise } := by
    rw [Machine.final_cons, hboot, Machine.final_cons, Machine.final_nil]
    exact hstep
  have htears : (powerMachine (toyCrypto none) benchKeys).StepsMeet
      (CutTears (toyCrypto none) benchKeys) (.off erasedFlash erasedSector)
      [.boot .ok .ok, .frame benchEnv first] := ⟨trivial, trivial, trivial⟩
  have h := revoked_stays_out benchKeys erasedSector htears hfinal hrevokes
  exact ⟨_, benchEnv, data, hrevokes, rfl,
    h.2.2 [.powerOff, .boot .ok .ok] ⟨⟨trivial, id⟩, ⟨trivial, id⟩, trivial⟩⟩

end PicoBridge
