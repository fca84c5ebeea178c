/-
`tools/controller_identity.py` and `tools/noise_ik_provision.py`, which
write identities, and `load_noise_identity` and `load_enrollment_public` of
`tools/pico_bridge_ctl.py`, which read them.

# What is modelled how

- A document is its members in order; a file is what `stat` tells of it
  and its bytes. That the directories are as the writers demand is given:
  they are modelled from the documents to the files.
- `json.loads` of bytes that are ASCII without a NUL reads them as they
  are. What it makes of other bytes is a parameter.
- A key pair is one that the library made (`X25519PrivateKey`).

# A field that one side omits

`load_noise_identity` asks for `device_public_b64`. The identity of
`noise_ik_provision` has it; the `identity-private.json` of
`controller_identity`, which the documentation installs in the same place,
has not, and is refused whatever its key and label are.
-/
import PicoBridge.Lib.Base64
import PicoBridge.Lib.Json
import PicoBridge.Noise.Agreement

namespace PicoBridge

open Lib (Base64.encode Base64.decode)
open Lib.Json

-- =============================================================== the files

/-- A file: what `stat` tells of it, and its bytes. -/
structure HostFile where
  isReg : Bool
  isLnk : Bool
  uid : Nat
  mode : BitVec 12
  bytes : List UInt8

/-- `os.open(name, O_WRONLY | O_CREAT | O_EXCL | O_NOFOLLOW, mode)`, and
the write. -/
def createFile (euid : Nat) (umask mode : BitVec 12) (bytes : List UInt8) : HostFile where
  isReg := true
  isLnk := false
  uid := euid
  mode := mode &&& ~~~umask
  bytes := bytes

/-- `(json.dumps(document, indent=2) + "\n").encode("utf-8")`. -/
def documentBytes (document : List (Text × Scalar)) : List UInt8 :=
  (dumps document ++ [10]).map UInt8.ofNat

/-- `json.loads` of bytes. -/
def loadsBytes (decodeOther : List UInt8 → Option Text) (bytes : List UInt8) : Option Value :=
  if bytes.all fun b => 0 < b && b < 128 then loads (bytes.map UInt8.toNat)
  else (decodeOther bytes).bind loads

-- ============================================================= the writers

/-- `Noise_IK_25519_ChaChaPoly_SHA256`. -/
def identityProtocol : Text := text "Noise_IK_25519_ChaChaPoly_SHA256"

/-- A key that `X25519PrivateKey.generate()` returned, and its public
key. -/
structure X25519PrivateKey (lib : Crypto) where
  priv : Key
  pub : Key
  pair : lib.KeyPair priv pub

/-- `b64`. -/
def b64 (key : Key) : Text := (Base64.encode key.toList).map UInt8.toNat

variable {lib : Crypto}

/-- The `host_identity` of `generate_bundle`. -/
def hostIdentity (device initiator : X25519PrivateKey lib) : List (Text × Scalar) :=
  [(text "schema", .int 1), (text "protocol", .str identityProtocol),
    (text "initiator_private_b64", .str (b64 initiator.priv)),
    (text "device_public_b64", .str (b64 device.pub))]

/-- The `noise-ik.json` of `write_bundle`. -/
def writeBundle (euid : Nat) (umask : BitVec 12) (device initiator : X25519PrivateKey lib) :
    HostFile :=
  createFile euid umask 0o600 (documentBytes (hostIdentity device initiator))

/-- `LABEL_RE.fullmatch`. -/
def labelRe : Text → Bool
  | [] => false
  | c :: rest => isAlnum c && rest.length ≤ 31 &&
      rest.all fun c => isAlnum c || c == 95 || c == 46 || c == 32 || c == 45
where
  isAlnum (c : Nat) : Bool :=
    (65 ≤ c && c ≤ 90) || (97 ≤ c && c ≤ 122) || (48 ≤ c && c ≤ 57)

def privateDoc (key : X25519PrivateKey lib) (label : Text) : List (Text × Scalar) :=
  [(text "schema", .int 1), (text "protocol", .str identityProtocol),
    (text "kind", .str (text "picobridge-controller-private")), (text "label", .str label),
    (text "initiator_private_b64", .str (b64 key.priv))]

def publicDoc (key : X25519PrivateKey lib) (label : Text) : List (Text × Scalar) :=
  [(text "schema", .int 1), (text "protocol", .str identityProtocol),
    (text "kind", .str (text "picobridge-controller-enrollment")), (text "label", .str label),
    (text "initiator_public_b64", .str (b64 key.pub))]

/-- `write_identity`: `identity-private.json` and `enrollment.json`; none
where it raises. -/
def writeIdentity (euid : Nat) (umask : BitVec 12) (key : X25519PrivateKey lib) (label : Text) :
    Option (HostFile × HostFile) :=
  if ¬labelRe label then none
  else
    some (createFile euid umask 0o600 (documentBytes (privateDoc key label)),
      createFile euid umask 0o644 (documentBytes (publicDoc key label)))

-- ============================================================= the readers

/-- `_decode_noise_key`. -/
def decodeNoiseKey (value : Option Value) (field : String) : Except String (List UInt8) :=
  match value with
  | some (.str s) =>
      if s.all (· < 128) then
        match Base64.decode (s.map UInt8.ofNat) with
        | none => .error ("invalid " ++ field ++ " in Noise identity")
        | some raw =>
            if raw.length ≠ 32 then .error ("invalid " ++ field ++ " length in Noise identity")
            else .ok raw
      else .error ("invalid " ++ field ++ " in Noise identity")
  | _ => .error ("invalid " ++ field ++ " in Noise identity")

/-- `load_noise_identity` on the members of the document: the initiator's
private and the device's public key. -/
def identityKeys (data : List (Text × Value)) : Except String (List UInt8 × List UInt8) :=
  if ¬isOne (get data (text "schema")) ∨
      ¬isStr identityProtocol (get data (text "protocol")) then
    .error "unsupported Noise identity format"
  else do
    let initiatorPrivate ←
      decodeNoiseKey (get data (text "initiator_private_b64")) "initiator private key"
    let devicePublic ←
      decodeNoiseKey (get data (text "device_public_b64")) "device public key"
    .ok (initiatorPrivate, devicePublic)

/-- `load_enrollment_public` on the members of the document. -/
def enrollmentKey (data : List (Text × Value)) : Except String (List UInt8) :=
  if ¬isOne (get data (text "schema")) ∨
      ¬isStr identityProtocol (get data (text "protocol")) ∨
      ¬isStr (text "picobridge-controller-enrollment") (get data (text "kind")) then
    .error "unsupported enrollment file"
  else decodeNoiseKey (get data (text "initiator_public_b64")) "enrollment public key"

section Readers

variable (decodeOther : List UInt8 → Option Text) (euid : Nat)

/-- `load_noise_identity`; none is a file that cannot be read. -/
def loadNoiseIdentity : Option HostFile → Except String (List UInt8 × List UInt8)
  | none => .error "could not read private Noise identity"
  | some file =>
      if ¬file.isReg ∨ file.uid ≠ euid ∨ file.mode &&& 0o077 ≠ 0 then
        .error "Noise identity must be a private regular file owned by this user"
      else if file.bytes.length > 4096 then .error "Noise identity is unexpectedly large"
      else
        match loadsBytes decodeOther file.bytes with
        | none => .error "could not read private Noise identity"
        | some (.obj data) => identityKeys data
        | some _ => .error "unsupported Noise identity format"

/-- `load_enrollment_public`. -/
def loadEnrollmentPublic : Option HostFile → Except String (List UInt8)
  | none => .error "could not read enrollment file"
  | some file =>
      if ¬file.isReg ∨ file.isLnk ∨ file.bytes.length > 4096 then
        .error "invalid enrollment file"
      else
        match loadsBytes decodeOther file.bytes with
        | none => .error "could not read enrollment file"
        | some (.obj data) => enrollmentKey data
        | some _ => .error "unsupported enrollment file"

end Readers

-- ============================================================ what is plain

/-- A document that `loads` reads back. -/
def PlainDocument (document : List (Text × Scalar)) : Prop :=
  ∀ m ∈ document, (∀ c ∈ m.1, Plain c) ∧ m.2.Reads

theorem plain_byte {b : UInt8} (hlow : 32 ≤ b) (hhigh : b ≤ 126) (hquote : b ≠ 34)
    (hback : b ≠ 92) : Plain b.toNat := by
  rw [UInt8.le_iff_toNat_le] at hlow hhigh
  rw [Ne, ← UInt8.toNat_inj] at hquote hback
  exact ⟨hlow, hhigh, hquote, hback⟩

theorem b64_plain (key : Key) : ∀ c ∈ b64 key, Plain c := by
  intro c hc
  obtain ⟨b, hb, rfl⟩ := List.mem_map.mp hc
  obtain ⟨hhigh, hlow, hquote, hback⟩ := Lib.Base64.encode_plain key.toList b hb
  exact plain_byte hlow hhigh hquote hback

theorem b64_length (key : Key) : (b64 key).length = 44 := by
  unfold b64
  rw [List.length_map, Lib.Base64.encode_length, Vector.length_toList]

/-- A label that is accepted. -/
theorem label_plain {label : Text} (h : labelRe label = true) :
    (∀ c ∈ label, Plain c) ∧ label.length ≤ 32 := by
  cases label with
  | nil => cases h
  | cons c rest =>
      simp only [labelRe, labelRe.isAlnum, Bool.and_eq_true, Bool.or_eq_true, decide_eq_true_eq,
        List.all_eq_true, beq_iff_eq] at h
      obtain ⟨⟨hfirst, hlength⟩, hrest⟩ := h
      refine ⟨List.forall_mem_cons.mpr ⟨?_, fun c hc => ?_⟩, ?_⟩
      · unfold Plain
        omega
      · have := hrest c hc
        unfold Plain
        omega
      · rw [List.length_cons]
        omega

theorem protocol_plain : ∀ c ∈ identityProtocol, Plain c := by decide

theorem hostIdentity_plain (device initiator : X25519PrivateKey lib) :
    PlainDocument (hostIdentity device initiator) := by
  simp only [PlainDocument, hostIdentity, List.forall_mem_cons]
  exact ⟨⟨by decide, reads_one⟩, ⟨by decide, reads_str protocol_plain⟩,
    ⟨by decide, reads_str (b64_plain _)⟩, ⟨by decide, reads_str (b64_plain _)⟩, by simp⟩

theorem privateDoc_plain (key : X25519PrivateKey lib) {label : Text} (h : labelRe label = true) :
    PlainDocument (privateDoc key label) := by
  simp only [PlainDocument, privateDoc, List.forall_mem_cons]
  exact ⟨⟨by decide, reads_one⟩, ⟨by decide, reads_str protocol_plain⟩,
    ⟨by decide, reads_str (by decide)⟩, ⟨by decide, reads_str (label_plain h).1⟩,
    ⟨by decide, reads_str (b64_plain _)⟩, by simp⟩

theorem publicDoc_plain (key : X25519PrivateKey lib) {label : Text} (h : labelRe label = true) :
    PlainDocument (publicDoc key label) := by
  simp only [PlainDocument, publicDoc, List.forall_mem_cons]
  exact ⟨⟨by decide, reads_one⟩, ⟨by decide, reads_str protocol_plain⟩,
    ⟨by decide, reads_str (by decide)⟩, ⟨by decide, reads_str (label_plain h).1⟩,
    ⟨by decide, reads_str (b64_plain _)⟩, by simp⟩

-- ========================================================== there and back

/-- ASCII there and back. -/
theorem map_ofNat_toNat {s : Text} (h : ∀ c ∈ s, c < 256) :
    (s.map UInt8.ofNat).map UInt8.toNat = s := by
  rw [List.map_map]
  refine (List.map_congr_left fun c hc => ?_).trans (List.map_id s)
  exact UInt8.toNat_ofNat'.trans (Nat.mod_eq_of_lt (h c hc))

theorem decodeNoiseKey_b64 (key : Key) (field : String) :
    decodeNoiseKey (some (.str (b64 key))) field = .ok key.toList := by
  have hascii : (b64 key).all (· < 128) = true := by
    rw [List.all_eq_true]
    intro c hc
    have := (b64_plain key c hc).2.1
    exact decide_eq_true (by omega)
  have hbytes : (b64 key).map UInt8.ofNat = Lib.Base64.encode key.toList := by
    unfold b64
    rw [List.map_map]
    exact (List.map_congr_left fun b _ => UInt8.ofNat_toNat).trans (List.map_id _)
  have hlength : ¬key.toList.length ≠ 32 := not_not_intro Vector.length_toList
  unfold decodeNoiseKey
  dsimp only
  rw [if_pos hascii, hbytes, Lib.Base64.decode_encode]
  exact if_neg hlength

/-- The bytes of a document, read. -/
theorem loadsBytes_document (decodeOther : List UInt8 → Option Text)
    {document : List (Text × Scalar)} (h : PlainDocument document) (hne : document ≠ []) :
    loadsBytes decodeOther (documentBytes document)
      = some (.obj (document.map fun m => (m.1, m.2.value))) := by
  have hascii : ∀ c ∈ dumps document ++ [10], 0 < c ∧ c < 128 := by
    intro c hc
    rcases List.mem_append.mp hc with hc | hc
    · exact dumps_ascii h c hc
    · rw [List.mem_singleton.mp hc]
      decide
  have hbytes : (documentBytes document).all (fun b => 0 < b && b < 128) = true := by
    rw [List.all_eq_true]
    intro b hb
    obtain ⟨c, hc, rfl⟩ := List.mem_map.mp hb
    obtain ⟨hpos, hlt⟩ := hascii c hc
    rw [Bool.and_eq_true, decide_eq_true_eq, decide_eq_true_eq, UInt8.lt_iff_toNat_lt,
      UInt8.lt_iff_toNat_lt, UInt8.toNat_ofNat', Nat.mod_eq_of_lt (by omega)]
    exact ⟨hpos, hlt⟩
  unfold loadsBytes
  rw [if_pos hbytes, documentBytes, map_ofNat_toNat fun c hc => by
    have := (hascii c hc).2
    omega]
  exact loads_dumps h hne rfl

/-- A private file stays private under any umask. -/
theorem createFile_private (umask : BitVec 12) :
    (0o600 &&& ~~~umask) &&& (0o077 : BitVec 12) = 0 := by
  have hzero : (0o600 : BitVec 12) &&& 0o077 = 0 := by decide
  rw [BitVec.and_assoc, BitVec.and_comm (~~~umask), ← BitVec.and_assoc, hzero]
  exact BitVec.zero_and

-- ============================================================== the readers

section Read

variable (decodeOther : List UInt8 → Option Text) (euid : Nat) (umask : BitVec 12)

theorem documentBytes_length {document : List (Text × Scalar)} (h : PlainDocument document) :
    (documentBytes document).length
      ≤ 5 + (document.map fun m => m.1.length + 8 + m.2.dumps.length).sum := by
  have := dumps_length_le fun m hm => (h m hm).1
  unfold documentBytes
  rw [List.length_map, List.length_append, List.length_singleton]
  omega

theorem str_length {s : Text} (h : ∀ c ∈ s, Plain c) :
    (Scalar.str s).dumps.length = s.length + 2 := by
  show (dumpsStr s).length = _
  rw [dumpsStr_plain h, List.length_append, List.length_cons, List.length_singleton]

theorem documents_fit (device initiator key : X25519PrivateKey lib) {label : Text}
    (h : labelRe label = true) :
    (documentBytes (hostIdentity device initiator)).length ≤ 4096 ∧
      (documentBytes (privateDoc key label)).length ≤ 4096 ∧
      (documentBytes (publicDoc key label)).length ≤ 4096 := by
  obtain ⟨hplain, hlabel⟩ := label_plain h
  have hone : (Scalar.int 1).dumps.length = 1 := by decide
  have hprotocol : (Scalar.str identityProtocol).dumps.length = 34 := by decide
  have hhost := documentBytes_length (hostIdentity_plain device initiator)
  have hprivate := documentBytes_length (privateDoc_plain key h)
  have hpublic := documentBytes_length (publicDoc_plain key h)
  have hkeys : (text "schema").length = 6 ∧ (text "protocol").length = 8 ∧
      (text "kind").length = 4 ∧ (text "label").length = 5 ∧
      (text "initiator_private_b64").length = 21 ∧ (text "device_public_b64").length = 17 ∧
      (text "initiator_public_b64").length = 20 := by decide
  have hkinds : (Scalar.str (text "picobridge-controller-private")).dumps.length = 31 ∧
      (Scalar.str (text "picobridge-controller-enrollment")).dumps.length = 34 := by decide
  simp only [hostIdentity, privateDoc, publicDoc, List.map_cons, List.map_nil, List.sum_cons,
    List.sum_nil, hone, hprotocol, hkeys, hkinds, str_length hplain, str_length (b64_plain _),
    b64_length] at hhost hprivate hpublic ⊢
  omega

/-- A private document of one's own is looked into. -/
theorem loadNoiseIdentity_document {document : List (Text × Scalar)} (h : PlainDocument document)
    (hne : document ≠ []) (hfits : (documentBytes document).length ≤ 4096) :
    loadNoiseIdentity decodeOther euid
        (some (createFile euid umask 0o600 (documentBytes document)))
      = identityKeys (document.map fun m => (m.1, m.2.value)) := by
  unfold loadNoiseIdentity createFile
  dsimp only
  rw [createFile_private, if_neg (by simp), if_neg (Nat.not_lt.mpr hfits),
    loadsBytes_document decodeOther h hne]

theorem loadEnrollmentPublic_document {document : List (Text × Scalar)}
    (h : PlainDocument document) (hne : document ≠ [])
    (hfits : (documentBytes document).length ≤ 4096) (mode : BitVec 12) :
    loadEnrollmentPublic decodeOther
        (some (createFile euid umask mode (documentBytes document)))
      = enrollmentKey (document.map fun m => (m.1, m.2.value)) := by
  unfold loadEnrollmentPublic createFile
  dsimp only
  rw [if_neg (by simp [hfits]), loadsBytes_document decodeOther h hne]

/-- The identity of `noise_ik_provision`, loaded. -/
theorem load_writeBundle (device initiator : X25519PrivateKey lib) :
    loadNoiseIdentity decodeOther euid (some (writeBundle euid umask device initiator))
      = .ok (initiator.priv.toList, device.pub.toList) := by
  have hfits := (@documents_fit lib device initiator initiator [65] rfl).1
  unfold writeBundle
  rw [loadNoiseIdentity_document _ _ _ (hostIdentity_plain device initiator)
    (List.cons_ne_nil _ _) hfits]
  have hschema : get ((hostIdentity device initiator).map fun m => (m.1, m.2.value)) (text "schema")
      = some (.int 1) := by rfl
  have hprotocol : get ((hostIdentity device initiator).map fun m => (m.1, m.2.value))
      (text "protocol") = some (.str identityProtocol) := by rfl
  have hprivate : get ((hostIdentity device initiator).map fun m => (m.1, m.2.value))
      (text "initiator_private_b64") = some (.str (b64 initiator.priv)) := by rfl
  have hdevice : get ((hostIdentity device initiator).map fun m => (m.1, m.2.value))
      (text "device_public_b64") = some (.str (b64 device.pub)) := by rfl
  unfold identityKeys
  rw [hschema, hprotocol, if_neg (by decide), hprivate, hdevice, decodeNoiseKey_b64,
    decodeNoiseKey_b64]
  rfl

/-- The private identity of `controller_identity` lacks a field. -/
theorem load_privateDoc (key : X25519PrivateKey lib) {label : Text} (h : labelRe label = true) :
    loadNoiseIdentity decodeOther euid
        (some (createFile euid umask 0o600 (documentBytes (privateDoc key label))))
      = .error "invalid device public key in Noise identity" := by
  have hfits := (documents_fit key key key h).2.1
  rw [loadNoiseIdentity_document _ _ _ (privateDoc_plain key h) (List.cons_ne_nil _ _) hfits]
  have hschema : get ((privateDoc key label).map fun m => (m.1, m.2.value)) (text "schema")
      = some (.int 1) := by rfl
  have hprotocol : get ((privateDoc key label).map fun m => (m.1, m.2.value)) (text "protocol")
      = some (.str identityProtocol) := by rfl
  have hprivate : get ((privateDoc key label).map fun m => (m.1, m.2.value))
      (text "initiator_private_b64") = some (.str (b64 key.priv)) := by rfl
  have hdevice : get ((privateDoc key label).map fun m => (m.1, m.2.value))
      (text "device_public_b64") = none := by rfl
  unfold identityKeys
  rw [hschema, hprotocol, if_neg (by decide), hprivate, hdevice, decodeNoiseKey_b64]
  rfl

/-- Its enrollment is whole. -/
theorem load_publicDoc (key : X25519PrivateKey lib) {label : Text} (h : labelRe label = true) :
    loadEnrollmentPublic decodeOther
        (some (createFile euid umask 0o644 (documentBytes (publicDoc key label))))
      = .ok key.pub.toList := by
  have hfits := (documents_fit key key key h).2.2
  rw [loadEnrollmentPublic_document _ _ _ (publicDoc_plain key h) (List.cons_ne_nil _ _) hfits]
  have hschema : get ((publicDoc key label).map fun m => (m.1, m.2.value)) (text "schema")
      = some (.int 1) := by rfl
  have hprotocol : get ((publicDoc key label).map fun m => (m.1, m.2.value)) (text "protocol")
      = some (.str identityProtocol) := by rfl
  have hkind : get ((publicDoc key label).map fun m => (m.1, m.2.value)) (text "kind")
      = some (.str (text "picobridge-controller-enrollment")) := by rfl
  have hpublic : get ((publicDoc key label).map fun m => (m.1, m.2.value))
      (text "initiator_public_b64") = some (.str (b64 key.pub)) := by rfl
  unfold enrollmentKey
  rw [hschema, hprotocol, hkind, if_neg (by decide), hpublic, decodeNoiseKey_b64]

end Read

-- ============================================================ the identities

/-- What the documentation promises of the written identities: the one of
`noise_ik_provision` is loaded with its keys, and so is the private file of
`controller_identity` and its enrollment, where it writes them. -/
structure IdentitiesLoad (decodeOther : List UInt8 → Option Text) (euid : Nat)
    (umask : BitVec 12) (device initiator controller : X25519PrivateKey lib) (label : Text) :
    Prop where
  bundle : loadNoiseIdentity decodeOther euid (some (writeBundle euid umask device initiator))
    = .ok (initiator.priv.toList, device.pub.toList)
  identity : ∀ privatePath publicPath,
    writeIdentity euid umask controller label = some (privatePath, publicPath) →
      ∃ devicePublic, loadNoiseIdentity decodeOther euid (some privatePath)
        = .ok (controller.priv.toList, devicePublic)
  enrollment : ∀ privatePath publicPath,
    writeIdentity euid umask controller label = some (privatePath, publicPath) →
      loadEnrollmentPublic decodeOther (some publicPath) = .ok controller.pub.toList

/-- They do where `controller_identity` writes nothing, and nowhere else:
the identity of `noise_ik_provision` and every enrollment are loaded, but
the private file is refused for a device key it never has. -/
theorem identities_load_iff (decodeOther : List UInt8 → Option Text) (euid : Nat)
    (umask : BitVec 12) (device initiator controller : X25519PrivateKey lib) (label : Text) :
    (IdentitiesLoad decodeOther euid umask device initiator controller label
      ↔ labelRe label = false) ∧
    loadNoiseIdentity decodeOther euid (some (writeBundle euid umask device initiator))
      = .ok (initiator.priv.toList, device.pub.toList) ∧
    ∀ privatePath publicPath,
      writeIdentity euid umask controller label = some (privatePath, publicPath) →
      loadNoiseIdentity decodeOther euid (some privatePath)
        = .error "invalid device public key in Noise identity" ∧
      loadEnrollmentPublic decodeOther (some publicPath) = .ok controller.pub.toList := by
  have hbundle := load_writeBundle decodeOther euid umask device initiator
  have hwritten : ∀ privatePath publicPath,
      writeIdentity euid umask controller label = some (privatePath, publicPath) →
      loadNoiseIdentity decodeOther euid (some privatePath)
        = .error "invalid device public key in Noise identity" ∧
      loadEnrollmentPublic decodeOther (some publicPath) = .ok controller.pub.toList := by
    intro privatePath publicPath h
    unfold writeIdentity at h
    split at h
    · cases h
    next hlabel =>
      rw [not_not] at hlabel
      cases h
      exact ⟨load_privateDoc decodeOther euid umask controller hlabel,
        load_publicDoc decodeOther euid umask controller hlabel⟩
  refine ⟨⟨fun h => ?_, fun hlabel => ?_⟩, hbundle, hwritten⟩
  · by_contra hlabel
    rw [Bool.not_eq_false] at hlabel
    have hfiles : writeIdentity euid umask controller label = some (_, _) :=
      if_neg (not_not_intro hlabel)
    obtain ⟨devicePublic, hloaded⟩ := h.identity _ _ hfiles
    rw [(hwritten _ _ hfiles).1] at hloaded
    cases hloaded
  · have hnone : writeIdentity euid umask controller label = none := by
      unfold writeIdentity
      rw [hlabel]
      rfl
    refine ⟨hbundle, fun privatePath publicPath h => ?_, fun privatePath publicPath h => ?_⟩
    · rw [hnone] at h
      cases h
    · rw [hnone] at h
      cases h

/-- A key pair that the library made. -/
def X25519PrivateKey.generated (priv : Key) : X25519PrivateKey (toyCrypto none) where
  priv := priv
  pub := toyPublic priv
  pair := rfl

/-- The identity of "laptop-02", written as the documentation has it. -/
theorem identities_not_loaded :
    ¬IdentitiesLoad (fun _ => none) 501 0o022 (.generated (tagKey 1)) (.generated (tagKey 2))
      (.generated (tagKey 3)) (text "laptop-02") := by
  intro h
  have hfiles : writeIdentity 501 0o022 (.generated (tagKey 3)) (text "laptop-02")
      = some (_, _) := if_neg (by decide)
  obtain ⟨devicePublic, hloaded⟩ := h.identity _ _ hfiles
  rw [load_privateDoc _ _ _ _ (by decide)] at hloaded
  cases hloaded

end PicoBridge
