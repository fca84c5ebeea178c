/-
Whose authority a session's commands have: the slot that a handshake
authenticated never comes to mean another key.

# The two sides

A handshake records a slot of the RAM roster and its role; the admin
checks look the role up again, by the slot, in the roster of the moment.
`witnessMachine` runs the device beside the key that authenticated last,
which the firmware itself forgets.

# The argument

A ready session's slot is a used one, and holds that key under the role
recorded (`SlotMeans`). ADD fills an unused slot, so another one; REVOKE
refuses the session's own (`candidate_keeps_slot`). Every other way out
of a session ends it, and a handshake that succeeds establishes the
invariant anew.
-/
import PicoBridge.Device.Revoke

namespace PicoBridge

open Lib (Machine)

-- =========================================================== the witness

variable (lib : Crypto) (keys : HeaderKeys)

/-- The key that a handshake frame authenticates, where it succeeds. -/
def authenticates (d : Device) (env : FrameEnv) (data : List UInt8) : Option Key :=
  match (noiseIkHandshakeRespond lib d.controllers env.responderEph (data.drop 1)
      (bridgeTransportResponseMax - 1) d.noise).1 with
  | none => none
  | some _ =>
      match identifyInitiator lib (data.drop 1) d.noise with
      | .ok key _ => some key
      | .error _ _ => none

/-- The key that authenticated in the current session, after a happening. -/
def keyAfter (w : Power) (key : Option Key) : Happening → Option Key
  | .frame env data =>
      match w with
      | .off _ _ => none
      | .on d => if IsHandshake data then authenticates lib d env data else key
  | .core _ => key
  | _ => none

/-- The device beside that key. -/
def witnessMachine : Machine (Power × Option Key) Happening Unit where
  step s i := ((powerStep lib keys s.1 i, keyAfter lib s.1 s.2 i), [])

/-- What the session's slot means: a used slot with the key, under the
role recorded, so that the admin check by the slot is one on the key. -/
def SlotMeans (d : Device) (key : Key) : Prop :=
  ∃ slot : Fin 5, d.noise.noiseAuthenticatedSlot = slot ∧ (d.controllers.slots slot).used ∧
    d.controllers.slots slot = ⟨d.noise.authenticatedRole, key⟩ ∧
    (controllerStoreIsAdmin d.controllers d.noise.noiseAuthenticatedSlot = true ↔
      d.noise.authenticatedRole = controllerRoleAdmin ∨
        d.noise.authenticatedRole = controllerRoleRecoveryAdmin)

-- ========================================================== the session slot

variable {lib keys} {d d₁ : Device} {env : FrameEnv} {data p : List UInt8}
  {candidate : ControllerStore}

theorem isAdmin_slot (store : ControllerStore) (slot : Fin 5) :
    controllerStoreIsAdmin store slot = true ↔
      (store.slots slot).role = controllerRoleAdmin ∨
        (store.slots slot).role = controllerRoleRecoveryAdmin := by
  unfold controllerStoreIsAdmin
  rw [dif_pos slot.isLt, Bool.or_eq_true, beq_iff_eq, beq_iff_eq]

/-- The fields that make a slot mean a key. -/
theorem SlotMeans.of_slot {key : Key} {slot : Fin 5} (hready : d.noise.ready = true)
    (hslot : d.noise.authenticatedSlot = slot) (hused : (d.controllers.slots slot).used)
    (hholds : d.controllers.slots slot = ⟨d.noise.authenticatedRole, key⟩) : SlotMeans d key := by
  have hcaller : d.noise.noiseAuthenticatedSlot = slot := by
    rw [NoiseIkCtx.noiseAuthenticatedSlot, if_pos hready, hslot]
  refine ⟨slot, hcaller, hused, hholds, ?_⟩
  rw [hcaller, isAdmin_slot, hholds]

/-- No command rewrites the slot of a session. -/
theorem candidate_keeps_slot (h : controllerCandidate d p = some candidate) {slot : Fin 5}
    (hslot : d.noise.noiseAuthenticatedSlot = slot) (hused : (d.controllers.slots slot).used) :
    candidate.slots slot = d.controllers.slots slot := by
  unfold controllerCandidate at h
  split at h
  next =>
    cases hadd : addCandidate d p with
    | error st =>
        rw [hadd] at h
        cases h
    | ok candidate' =>
        rw [hadd] at h
        cases h
        obtain ⟨-, i, hstore⟩ := addCandidate_ok hadd
        obtain ⟨-, -, -, -, hfree, rfl⟩ := controllerStoreAdd_ok hstore
        refine rewrite_other _ (fun heq => ?_) _
        rw [heq] at hused
        exact hfree hused
  next =>
    split at h
    next =>
      cases hrevoke : revokeCandidate d p with
      | error st =>
          rw [hrevoke] at h
          cases h
      | ok candidate' =>
          rw [hrevoke] at h
          cases h
          obtain ⟨-, hother, hstore⟩ := revokeCandidate_ok hrevoke
          obtain ⟨i, hi, -, -, rfl⟩ := controllerStoreRevoke_ok hstore
          refine rewrite_other _ (fun heq => hother ?_) _
          rw [← hi, hslot, heq]
    next => cases h

/-- The RAM roster after a commit is the old one or the candidate. -/
theorem rosterAfter_ram (d : Device) (env : FrameEnv) (o : Option ControllerStore) :
    (rosterAfter d env o).1 = d.controllers ∨ o = some (rosterAfter d env o).1 := by
  cases o with
  | none => exact .inl rfl
  | some candidate =>
      unfold rosterAfter
      dsimp only
      split
      · exact .inr rfl
      · exact .inl rfl

/-- A dispatched command and its receipt leave the session's slot and
role. -/
theorem afterCommand_session (h : Dispatches lib d data p d₁) (env : FrameEnv) (respCap : Nat) :
    let noise := (afterCommand lib d₁ env p respCap).2.noise
    noise.ready = d.noise.ready ∧ noise.authenticatedSlot = d.noise.authenticatedSlot ∧
      noise.authenticatedRole = d.noise.authenticatedRole := by
  obtain ⟨sendNonce, hnoise⟩ := afterCommand_noise h env respCap
  dsimp only
  rw [hnoise]
  exact ⟨rfl, rfl, rfl⟩

/-- Commands keep what the session's slot means. -/
theorem SlotMeans.afterCommand {key : Key} (h : SlotMeans d key) (hready : d.noise.ready = true)
    (hdispatch : Dispatches lib d data p d₁) (env : FrameEnv) (respCap : Nat) :
    SlotMeans (afterCommand lib d₁ env p respCap).2 key := by
  obtain ⟨slot, hslot, hused, hholds, -⟩ := h
  obtain ⟨hready', hslot', hrole'⟩ := afterCommand_session hdispatch env respCap
  obtain ⟨hram₁, -, hsame⟩ := hdispatch.same
  have hrosters := congrArg Prod.fst (afterCommand_rosters lib d₁ env p respCap)
  dsimp only at hrosters
  have hcaller : d.noise.authenticatedSlot = slot := by
    rw [← hslot, NoiseIkCtx.noiseAuthenticatedSlot, if_pos hready]
  have hkept : (PicoBridge.afterCommand lib d₁ env p respCap).2.controllers.slots slot
      = d.controllers.slots slot := by
    rw [hrosters]
    rcases rosterAfter_ram d₁ env (controllerCandidate d₁ p) with hold | hnew
    · rw [hold, hram₁]
    · exact candidate_keeps_slot (hsame.symm.trans hnew) hslot hused
  refine .of_slot (hready'.trans hready) (hslot'.trans hcaller) ?_ ?_
  · rw [hkept]
    exact hused
  · rw [hkept, hrole']
    exact hholds

-- ============================================================== the handshake

/-- A handshake that ends in a session authenticates a key, and the
session's slot means it. -/
theorem handshake_means (hhandshake : IsHandshake data)
    (hready : (noiseIkHandshakeRespond lib d.controllers env.responderEph (data.drop 1)
      (bridgeTransportResponseMax - 1) d.noise).2.ready = true) :
    ∃ key, authenticates lib d env data = some key ∧
      SlotMeans { d with noise := (noiseIkHandshakeRespond lib d.controllers env.responderEph
        (data.drop 1) (bridgeTransportResponseMax - 1) d.noise).2 } key := by
  unfold authenticates
  rcases hrespond : noiseIkHandshakeRespond lib d.controllers env.responderEph (data.drop 1)
    (bridgeTransportResponseMax - 1) d.noise with ⟨response, noise⟩
  rw [hrespond] at hready
  dsimp only at hready ⊢
  cases response with
  | none =>
      have hlen : (data.drop 1).length = noiseIkInitMessageLen := by
        rw [List.length_drop, hhandshake.2]
        omega
      rw [handshakeRespond_failed hlen (by decide) hrespond] at hready
      cases hready
  | some response =>
      obtain ⟨-, key, ctx₁, slot, role, hid, hfind, hsession, hslot, hrole⟩ :=
        handshakeRespond_ok hrespond
      obtain ⟨hused, hkey, rfl⟩ := controllerStoreFind_ok hfind
      rw [hid]
      refine ⟨key, rfl, .of_slot hsession hslot hused ?_⟩
      rw [hrole, ← hkey]

-- ================================================================ the step

/-- A ready session's slot means the key that authenticated. -/
def Means (s : Power × Option Key) : Prop :=
  ∀ d, s.1 = .on d → d.noise.ready = true → ∃ key, s.2 = some key ∧ SlotMeans d key

theorem bootNoise_ready (priv : Key) : (bootNoise lib priv).ready = false := by
  unfold bootNoise noiseIkInit
  dsimp only
  cases x25519Dh lib priv basepoint with
  | none => rfl
  | some pub =>
      have h := @resetHandshakeState_ready lib { noiseIkCtxZero with
        controllersSet := true, deviceStaticPriv := priv, deviceStaticPub := pub }
      unfold Noise.leaves at h
      dsimp only at h ⊢
      split
      next hrun =>
        rw [hrun] at h
        exact h
      next hrun =>
        rw [hrun] at h
        exact h

/-- A device that has just booted has no session. -/
theorem bootPower_ready {w : Power} {seedExec importExec : FlashExec} {d : Device}
    (h : bootPower lib keys w seedExec importExec = .on d) : d.noise.ready = false := by
  unfold bootPower at h
  split at h
  · cases h
    exact bootNoise_ready keys.deviceStaticPrivate
  · cases h

theorem means_frame {key : Option Key} (h : Means (.on d, key)) (env : FrameEnv)
    (data : List UInt8) :
    Means ((witnessMachine lib keys).step (.on d, key) (.frame env data)).1 := by
  rintro d' hd' hready
  have hd' : (commandProcessFrame lib d env data bridgeTransportResponseMax).2 = d' :=
    Power.on.inj hd'
  subst hd'
  show ∃ k, (if IsHandshake data then _ else key) = some k ∧ _
  rcases frame_cases lib d env data bridgeTransportResponseMax with
    ⟨hframe, hnot, -⟩ | ⟨hhandshake, response, hframe⟩ | ⟨p, d₁, hdispatch, hframe⟩
  · rw [hframe] at hready ⊢
    rw [if_neg hnot]
    exact h d rfl hready
  · rw [hframe] at hready ⊢
    rw [if_pos hhandshake]
    exact handshake_means hhandshake hready
  · rw [hframe] at hready ⊢
    have hnot : ¬IsHandshake data := fun hh =>
      absurd (hh.1.symm.trans hdispatch.1) (by decide)
    rw [if_neg hnot]
    rw [(afterCommand_session hdispatch env _).1] at hready
    obtain ⟨k, hk, hmeans⟩ := h d rfl hready
    exact ⟨k, hk, hmeans.afterCommand hready hdispatch env _⟩

theorem means_step {s : Power × Option Key} (h : Means s) (i : Happening) :
    Means ((witnessMachine lib keys).step s i).1 := by
  obtain ⟨w, key⟩ := s
  cases i with
  | boot seedExec importExec =>
      rintro d hd hready
      have hon : bootPower lib keys w seedExec importExec = .on d := hd
      rw [bootPower_ready hon] at hready
      cases hready
  | bootCut phase cut => exact fun d hd => by cases hd
  | frame env data =>
      cases w with
      | off store radio => exact fun d hd => by cases hd
      | on d => exact means_frame h env data
  | frameCut env data cut =>
      cases w with
      | off store radio => exact fun d hd => by cases hd
      | on d => exact fun d hd => by cases hd
  | core call =>
      cases w with
      | off store radio => exact fun d hd => by cases hd
      | on d =>
          rintro d' hd' hready
          have hd' : { d with core := (coreOp d.core call).2 } = d' := Power.on.inj hd'
          subst hd'
          exact h d rfl hready
  | powerOff => exact fun d hd => by cases hd

-- ================================================================ the runs

/-- The authenticated slot never changes meaning. In every life of a
device, from any flash, a ready session's slot holds the public key that
authenticated in its handshake, under the role recorded then; the admin
check by the slot is a check on that key. -/
theorem authenticated_slot_keeps_meaning (keys : HeaderKeys) (store : StoreFlash) (radio : Sector)
    (is : List Happening) {d : Device} {key : Option Key}
    (hd : (witnessMachine lib keys).final (.off store radio, none) is = (.on d, key))
    (hready : d.noise.ready = true) :
    ∃ k, key = some k ∧ SlotMeans d k := by
  have hmeans : Means ((witnessMachine lib keys).final (.off store radio, none) is) :=
    (witnessMachine lib keys).final_inv (P := Means) (fun _ i h => means_step h i)
      (fun d hd => (by cases hd)) is
  rw [hd] at hmeans
  exact hmeans d rfl hready

/-- The recovery admin's session after a first boot. -/
theorem authenticated_slot_keeps_meaning_bench : ∃ data noise key,
    (witnessMachine (toyCrypto none) benchKeys).final (.off erasedFlash erasedSector, none)
        [.boot .ok .ok, .frame benchEnv data] = (.on { bootedBench with noise := noise }, key) ∧
      noise.ready = true ∧
      ∃ k, key = some k ∧ SlotMeans { bootedBench with noise := noise } k := by
  obtain ⟨data, host, noise, hstep, -, hpaired⟩ := bench_session
  have hboot : ((witnessMachine (toyCrypto none) benchKeys).step
      (.off erasedFlash erasedSector, none) (.boot .ok .ok)).1 = (.on bootedBench, none) :=
    congrArg (·, none) bench_boots
  have hfinal : (witnessMachine (toyCrypto none) benchKeys).final
      (.off erasedFlash erasedSector, none) [.boot .ok .ok, .frame benchEnv data]
        = (.on { bootedBench with noise := noise },
          keyAfter (toyCrypto none) (.on bootedBench) none (.frame benchEnv data)) := by
    rw [Machine.final_cons, hboot, Machine.final_cons, Machine.final_nil]
    exact congrArg (·, keyAfter (toyCrypto none) (.on bootedBench) none (.frame benchEnv data)) hstep
  exact ⟨data, noise, _, hfinal, hpaired.ready,
    authenticated_slot_keeps_meaning benchKeys erasedFlash erasedSector _ hfinal hpaired.ready⟩

end PicoBridge
