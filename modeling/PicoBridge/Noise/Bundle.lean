/-
The directories that the provisioning tools make: `write_bundle` of
`noise_ik_provision.py` and of `radio_provision.py`, and `write_identity`
of `controller_identity.py`.

# What is modelled how

- The three do the same calls, on files of their own, and differ in what
  they undo: `writeDirectory` is their common course.
- Any system call may fail, and a write that fails may have written a
  part. How the calls end is an input, those of the roll-back apart;
  `os.close` does not fail, and no exception comes between two calls.
- What has been changed and not synced yet is noted by its inode.

# All or nothing

A directory is made whole, with every file and itself synced, or there is
none; and nothing that was there is touched. Only a call of the roll-back
that itself fails leaves a part (`writeDirectory_result`).
-/
import PicoBridge.Lib.Procedure
import PicoBridge.Noise.Identity

namespace PicoBridge

open Lib.Procedure
open Lib.Json

-- ================================================================ the state

/-- What a name in the parent directory stands for. -/
inductive DirEntry
  | directory (uid : Nat) (mode : BitVec 12) (files : List (Text × HostFile))
  | other (inode : Nat)

/-- What `os.fsync` is called on. -/
inductive Inode
  | parent
  | directory
  | file (name : Text)
  deriving DecidableEq

/-- The parent directory, what has been changed in it and not synced, how
the calls to come end, and the locals `made_directory`, `directory_fd` and
`created`. A call that fails has written so many bytes. -/
structure Writing where
  parentUid : Nat
  parentMode : BitVec 12
  entries : Text → Option DirEntry
  dirty : List Inode
  outcomes : List (Option Nat)
  undoOutcomes : List (Option Nat)
  madeDirectory : Bool
  directoryOpen : Bool
  created : List Text

/-- What ends a tool: a `ValueError` before anything is opened, the
exception that the roll-back raises again, or one of its own. -/
inductive WriteError
  | value
  | raised
  | rollBack
  deriving DecidableEq

/-- Who makes a directory, and its name. -/
structure Target where
  euid : Nat
  umask : BitVec 12
  name : Text

structure NewFile where
  name : Text
  mode : BitVec 12
  content : List UInt8

/-- The file, once it is written. -/
def NewFile.file (t : Target) (f : NewFile) : Text × HostFile :=
  (f.name, createFile t.euid t.umask f.mode f.content)

/-- The directory, with some files. -/
def Target.directory (t : Target) (files : List (Text × HostFile)) : DirEntry :=
  .directory t.euid (0o700 &&& ~~~t.umask) files

/-- A file in the directory. -/
def Writing.file? (t : Target) (s : Writing) (name : Text) : Option HostFile :=
  match s.entries t.name with
  | some (.directory _ _ files) => files.lookup name
  | _ => none

-- ================================================================ the calls

/-- A system call of the `try`: it fails where its outcome says so, and
where it cannot be done. -/
def sysCall (partly : Nat → Writing → Writing) (does : Writing → Option Writing) :
    EStateM Unit Writing Unit := fun s =>
  let next := { s with outcomes := s.outcomes.tail }
  match s.outcomes.head? with
  | some (some n) => .error () (partly n next)
  | _ =>
      match does next with
      | some s' => .ok () s'
      | none => .error () next

/-- A system call of the roll-back. -/
def undoCall (does : Writing → Option Writing) : EStateM Unit Writing Unit := fun s =>
  let next := { s with undoOutcomes := s.undoOutcomes.tail }
  match s.undoOutcomes.head? with
  | some (some _) => .error () next
  | _ =>
      match does next with
      | some s' => .ok () s'
      | none => .error () next

/-- The files of the directory, changed. -/
def Writing.change (t : Target) (f : List (Text × HostFile) → Option (List (Text × HostFile)))
    (s : Writing) : Option Writing :=
  match s.entries t.name with
  | some (.directory uid mode files) =>
      (f files).map fun files =>
        { s with entries := Function.update s.entries t.name (some (.directory uid mode files)) }
  | _ => none

/-- `os.open` of the parent. -/
def openParent : EStateM Unit Writing Unit := sysCall (fun _ s => s) some

/-- `os.fstat` of the parent, and the `PermissionError`. -/
def statParent (t : Target) : EStateM Unit Writing Unit :=
  sysCall (fun _ s => s) fun s =>
    if s.parentUid ≠ t.euid ∨ s.parentMode &&& 0o077 ≠ 0 then none else some s

/-- `os.mkdir`, which takes no name that is there. -/
def makeDirectory (t : Target) : EStateM Unit Writing Unit :=
  sysCall (fun _ s => s) fun s =>
    match s.entries t.name with
    | some _ => none
    | none =>
        some { s with
          entries := Function.update s.entries t.name (some (t.directory []))
          dirty := .parent :: s.dirty
          madeDirectory := true }

/-- `os.open` of the directory. -/
def openDirectory (t : Target) : EStateM Unit Writing Unit :=
  sysCall (fun _ s => s) fun s =>
    match s.entries t.name with
    | some (.directory _ _ _) => some { s with directoryOpen := true }
    | _ => none

/-- `os.open` of a new file, with `O_EXCL`. -/
def openNew (t : Target) (f : NewFile) : EStateM Unit Writing Unit :=
  sysCall (fun _ s => s) fun s =>
    (s.change t fun files =>
      if f.name ∈ files.map Prod.fst then none
      else some (files ++ [(f.name, createFile t.euid t.umask f.mode [])])).map fun s =>
        { s with
          dirty := .file f.name :: .directory :: s.dirty
          created := s.created ++ [f.name] }

/-- A file with other bytes. -/
def putBytes (name : Text) (bytes : List UInt8) (files : List (Text × HostFile)) :
    List (Text × HostFile) :=
  files.map fun e => if e.1 = name then (e.1, { e.2 with bytes := bytes }) else e

def Writing.wrote (t : Target) (name : Text) (bytes : List UInt8) (s : Writing) : Writing :=
  match s.change t fun files => some (putBytes name bytes files) with
  | some s => { s with dirty := .file name :: s.dirty }
  | none => s

/-- `stream.write` and `stream.flush`. -/
def writeBytes (t : Target) (f : NewFile) : EStateM Unit Writing Unit :=
  sysCall (fun n s => s.wrote t f.name (f.content.take n)) fun s =>
    some (s.wrote t f.name f.content)

/-- `os.fsync`. -/
def sync (inode : Inode) : EStateM Unit Writing Unit :=
  sysCall (fun _ s => s) fun s => some { s with dirty := s.dirty.filter (· ≠ inode) }

/-- The loop over the files. -/
def writeFiles (t : Target) : List NewFile → EStateM Unit Writing Unit
  | [] => pure ()
  | f :: fs => do
      openNew t f
      writeBytes t f
      sync (.file f.name)
      writeFiles t fs

/-- The `try`; none of the files where making their bytes raises. -/
def tryBody (t : Target) (files : Option (List NewFile)) : EStateM Unit Writing Unit := do
  statParent t
  makeDirectory t
  openDirectory t
  let files ← ofOption () files
  writeFiles t files
  sync .directory
  sync .parent

/-- `os.unlink`, with or without the `except FileNotFoundError`. -/
def unlink (t : Target) (missingOk : Bool) (name : Text) : EStateM Unit Writing Unit :=
  undoCall fun s =>
    s.change t fun files =>
      if name ∈ files.map Prod.fst then some (files.filter (·.1 ≠ name))
      else if missingOk then some files
      else none

def unlinkAll (t : Target) (missingOk : Bool) : List Text → EStateM Unit Writing Unit
  | [] => pure ()
  | name :: names => do
      unlink t missingOk name
      unlinkAll t missingOk names

/-- `os.rmdir`. -/
def removeDirectory (t : Target) : EStateM Unit Writing Unit :=
  undoCall fun s =>
    match s.entries t.name with
    | some (.directory _ _ []) =>
        some { s with entries := Function.update s.entries t.name none }
    | _ => none

/-- The `except`: it unlinks what was created, or some names of which any
may be missing. -/
def rollBack (t : Target) (unlinked : Option (List Text)) : EStateM Unit Writing Unit := fun s =>
  (do
    if s.directoryOpen then unlinkAll t unlinked.isSome (unlinked.getD s.created)
    if s.madeDirectory then removeDirectory t : EStateM Unit Writing Unit) s

/-- The common course of the three. -/
def writeDirectory (t : Target) (unlinked : Option (List Text))
    (files : Option (List NewFile)) : EStateM WriteError Writing Unit := fun s =>
  if t.name ∈ [text "", text ".", text ".."] then .error .value s
  else
    match openParent
      { s with dirty := [], madeDirectory := false, directoryOpen := false, created := [] } with
    | .error _ s => .error .raised s
    | .ok _ s =>
        match tryBody t files s with
        | .ok _ s => .ok () s
        | .error _ s =>
            match rollBack t unlinked s with
            | .ok _ s => .error .raised s
            | .error _ s => .error .rollBack s

-- ================================================================ the tools

variable {lib : Crypto}

def noiseFiles (header : List UInt8) (device initiator : X25519PrivateKey lib) : List NewFile :=
  [⟨text "noise_ik_keys.h", 0o600, header⟩,
    ⟨text "noise-ik.json", 0o600, documentBytes (hostIdentity device initiator)⟩]

/-- `write_bundle` of `noise_ik_provision`; no header where it is not
ASCII. -/
def writeNoiseDirectory (t : Target) (header : Option (List UInt8))
    (device initiator : X25519PrivateKey lib) : EStateM WriteError Writing Unit :=
  writeDirectory t none (header.map fun header => noiseFiles header device initiator)

def radioFiles (sector caPem enrollment : List UInt8) : List NewFile :=
  [⟨text "sector.bin", 0o600, sector⟩, ⟨text "ca.pem", 0o600, caPem⟩,
    ⟨text "enrollment.json", 0o600, enrollment⟩]

/-- `write_bundle` of `radio_provision`. -/
def writeRadioDirectory (t : Target) (sector caPem enrollment : List UInt8) :
    EStateM WriteError Writing Unit :=
  writeDirectory t none (some (radioFiles sector caPem enrollment))

def identityFiles (key : X25519PrivateKey lib) (label : Text) : List NewFile :=
  [⟨text "identity-private.json", 0o600, documentBytes (privateDoc key label)⟩,
    ⟨text "enrollment.json", 0o644, documentBytes (publicDoc key label)⟩]

/-- `write_identity` of `controller_identity`. -/
def writeIdentityDirectory (t : Target) (key : X25519PrivateKey lib) (label : Text) :
    EStateM WriteError Writing Unit := fun s =>
  if ¬labelRe label then .error .value s
  else
    writeDirectory t (some [text "identity-private.json", text "enrollment.json"])
      (some (identityFiles key label)) s

-- ============================================================ the invariant

/-- Nothing is made yet. -/
structure Untouched (s₀ s : Writing) : Prop where
  entries : s.entries = s₀.entries
  dirty : s.dirty = []
  made : s.madeDirectory = false
  handle : s.directoryOpen = false
  created : s.created = []
  undo : s.undoOutcomes = s₀.undoOutcomes
  parent : s.parentUid = s₀.parentUid ∧ s.parentMode = s₀.parentMode

/-- A private parent, without the name. -/
structure Target.Fits (t : Target) (s₀ : Writing) : Prop where
  absent : s₀.entries t.name = none
  owned : s₀.parentUid = t.euid
  shut : s₀.parentMode &&& 0o077 = 0

/-- The directory is made, and has these files. -/
structure Held (t : Target) (s₀ : Writing) (isOpen : Bool) (files : List (Text × HostFile))
    (pending : List Inode) (s : Writing) : Prop where
  fits : t.Fits s₀
  entries : s.entries = Function.update s₀.entries t.name (some (t.directory files))
  dirty : ∀ x ∈ s.dirty, x ∈ pending
  made : s.madeDirectory = true
  handle : s.directoryOpen = isOpen
  created : s.created = files.map Prod.fst
  distinct : (files.map Prod.fst).Nodup
  undo : s.undoOutcomes = s₀.undoOutcomes

/-- What every failure of the `try` leaves. -/
def Unfinished (t : Target) (s₀ : Writing) (names : List Text) (s : Writing) : Prop :=
  Untouched s₀ s ∨ ∃ isOpen files pending, Held t s₀ isOpen files pending s ∧
    (isOpen = false → files = []) ∧ ∀ e ∈ files, e.1 ∈ names

variable {t : Target} {s₀ s : Writing} {isOpen : Bool} {files : List (Text × HostFile)}
  {pending : List Inode} {names : List Text}

theorem Held.unfinished (h : Held t s₀ isOpen files pending s)
    (hclosed : isOpen = false → files = []) (hnames : ∀ e ∈ files, e.1 ∈ names) :
    Unfinished t s₀ names s :=
  .inr ⟨isOpen, files, pending, h, hclosed, hnames⟩

/-- A change of the files, wherever the directory is. -/
theorem change_directory
    (h : s.entries = Function.update s₀.entries t.name (some (t.directory files)))
    (f : List (Text × HostFile) → Option (List (Text × HostFile))) :
    s.change t f = (f files).map fun files =>
      { s with entries := Function.update s₀.entries t.name (some (t.directory files)) } := by
  unfold Writing.change
  simp only [h, Function.update_self, Target.directory, Function.update_idem]

-- ================================================================ the steps

theorem sysCall_cases (partly : Nat → Writing → Writing) (does : Writing → Option Writing)
    (s : Writing) :
    let next := { s with outcomes := s.outcomes.tail }
    (∃ n, sysCall partly does s = .error () (partly n next)) ∨
      (∃ s', does next = some s' ∧ sysCall partly does s = .ok () s') ∨
      sysCall partly does s = .error () next := by
  intro next
  unfold sysCall
  dsimp only
  split
  next n _ => exact .inl ⟨n, rfl⟩
  next =>
    cases hdoes : does next with
    | some s' => exact .inr (.inl ⟨s', rfl, rfl⟩)
    | none => exact .inr (.inr rfl)

/-- The rule of a system call. -/
theorem triple_sysCall {P Q E : Writing → Prop} {partly : Nat → Writing → Writing}
    {does : Writing → Option Writing} (hblind : ∀ s os, P s → P { s with outcomes := os })
    (hpartly : ∀ n s, P s → E (partly n s)) (hrefused : ∀ s, P s → E s)
    (hdoes : ∀ s s', P s → does s = some s' → Q s') :
    Triple P (sysCall partly does) (fun _ => Q) (fun _ => E) := by
  intro s hP
  have hnext := hblind s s.outcomes.tail hP
  rcases sysCall_cases partly does s with ⟨n, hrun⟩ | ⟨s', hs', hrun⟩ | hrun
  · rw [hrun]
    exact hpartly n _ hnext
  · rw [hrun]
    exact hdoes _ _ hnext hs'
  · rw [hrun]
    exact hrefused _ hnext

theorem Untouched.blind (h : Untouched s₀ s) (os : List (Option Nat)) :
    Untouched s₀ { s with outcomes := os } :=
  ⟨h.entries, h.dirty, h.made, h.handle, h.created, h.undo, h.parent⟩

theorem Held.blind (h : Held t s₀ isOpen files pending s) (os : List (Option Nat)) :
    Held t s₀ isOpen files pending { s with outcomes := os } :=
  ⟨h.fits, h.entries, h.dirty, h.made, h.handle, h.created, h.distinct, h.undo⟩

theorem openParent_triple :
    Triple (Untouched s₀) openParent (fun _ => Untouched s₀) fun _ => Untouched s₀ := by
  apply triple_sysCall
  · exact fun s os h => h.blind os
  · exact fun _ s h => h
  · exact fun s h => h
  · intro s s' h hs'
    cases hs'
    exact h

theorem statParent_triple :
    Triple (Untouched s₀) (statParent t)
      (fun _ s => Untouched s₀ s ∧ s₀.parentUid = t.euid ∧ s₀.parentMode &&& 0o077 = 0)
      fun _ => Unfinished t s₀ names := by
  apply triple_sysCall
  · exact fun s os h => h.blind os
  · exact fun _ s h => .inl h
  · exact fun s h => .inl h
  · intro s s' h hs'
    split at hs'
    · cases hs'
    next hprivate =>
      cases hs'
      rw [h.parent.1, h.parent.2, not_or, not_ne_iff, not_ne_iff] at hprivate
      exact ⟨h, hprivate⟩

theorem makeDirectory_triple :
    Triple (fun s => Untouched s₀ s ∧ s₀.parentUid = t.euid ∧ s₀.parentMode &&& 0o077 = 0)
      (makeDirectory t) (fun _ => Held t s₀ false [] [.parent])
      fun _ => Unfinished t s₀ names := by
  apply triple_sysCall
  · exact fun s os h => ⟨h.1.blind os, h.2⟩
  · exact fun _ s h => .inl h.1
  · exact fun s h => .inl h.1
  · rintro s s' ⟨h, howned, hshut⟩ hs'
    cases habsent : s.entries t.name with
    | some entry =>
        rw [habsent] at hs'
        cases hs'
    | none =>
        rw [habsent] at hs'
        cases hs'
        rw [h.entries] at habsent
        refine ⟨⟨habsent, howned, hshut⟩, ?_, ?_, rfl, h.handle, h.created, List.nodup_nil, h.undo⟩
        · rw [h.entries]
        · rw [h.dirty]
          exact fun x hx => hx

theorem openDirectory_triple :
    Triple (Held t s₀ false [] [.parent]) (openDirectory t)
      (fun _ => Held t s₀ true [] [.directory, .parent]) fun _ => Unfinished t s₀ names := by
  apply triple_sysCall
  · exact fun s os h => h.blind os
  · exact fun _ s h => h.unfinished (fun _ => rfl) (fun _ he => absurd he List.not_mem_nil)
  · exact fun s h => h.unfinished (fun _ => rfl) (fun _ he => absurd he List.not_mem_nil)
  · intro s s' h hs'
    rw [h.entries, Function.update_self] at hs'
    cases hs'
    exact ⟨h.fits, rfl, fun x hx => List.mem_cons_of_mem _ (h.dirty x hx), h.made, rfl,
      h.created, h.distinct, h.undo⟩

/-- `O_EXCL`: a new file, or a failure. -/
theorem openNew_triple {f : NewFile} (hfiles : ∀ e ∈ files, e.1 ∈ names) :
    Triple (Held t s₀ true files [.directory, .parent]) (openNew t f)
      (fun _ => Held t s₀ true (files ++ [(f.name, createFile t.euid t.umask f.mode [])])
        [.file f.name, .directory, .parent])
      fun _ => Unfinished t s₀ names := by
  apply triple_sysCall
  · exact fun s os h => h.blind os
  · exact fun _ s h => h.unfinished (fun hopen => by cases hopen) hfiles
  · exact fun s h => h.unfinished (fun hopen => by cases hopen) hfiles
  · intro s s' h hs'
    rw [change_directory h.entries] at hs'
    by_cases hmem : f.name ∈ files.map Prod.fst
    · rw [if_pos hmem] at hs'
      cases hs'
    · rw [if_neg hmem] at hs'
      cases hs'
      have hnames : (files ++ [(f.name, createFile t.euid t.umask f.mode [])]).map Prod.fst
          = files.map Prod.fst ++ [f.name] := List.map_append
      refine ⟨h.fits, rfl, ?_, h.made, h.handle, ?_, ?_, h.undo⟩
      · intro x hx
        have := h.dirty x
        simp only [List.mem_cons, List.not_mem_nil, or_false] at hx this ⊢
        tauto
      · rw [hnames, ← h.created]
      · rw [hnames]
        exact List.concat_eq_append ▸ h.distinct.concat hmem

theorem putBytes_last {name : Text} {file : HostFile} (bytes : List UInt8)
    (hnew : name ∉ files.map Prod.fst) :
    putBytes name bytes (files ++ [(name, file)])
      = files ++ [(name, { file with bytes := bytes })] := by
  have hsame : files.map (fun e => if e.1 = name then (e.1, { e.2 with bytes := bytes }) else e)
      = files := by
    refine (List.map_congr_left fun e he => ?_).trans (List.map_id files)
    exact if_neg fun heq : e.1 = name => hnew (heq ▸ List.mem_map_of_mem he)
  unfold putBytes
  rw [List.map_append, hsame, List.map_singleton, if_pos rfl]

theorem Held.wrote {name : Text} {file : HostFile}
    (h : Held t s₀ isOpen (files ++ [(name, file)]) (.file name :: pending) s)
    (bytes : List UInt8) :
    Held t s₀ isOpen (files ++ [(name, { file with bytes := bytes })]) (.file name :: pending)
      (s.wrote t name bytes) := by
  have hnames : ∀ file : HostFile, (files ++ [(name, file)]).map Prod.fst
      = files.map Prod.fst ++ [name] := fun _ => List.map_append
  have hdistinct := h.distinct
  rw [hnames] at hdistinct
  have hnew : name ∉ files.map Prod.fst := fun hmem =>
    (List.nodup_append.mp hdistinct).2.2 name hmem name (List.mem_singleton_self name) rfl
  unfold Writing.wrote
  rw [change_directory h.entries, putBytes_last bytes hnew]
  refine ⟨h.fits, rfl, ?_, h.made, h.handle, ?_, ?_, h.undo⟩
  · intro x hx
    rcases List.mem_cons.mp hx with rfl | hx
    · exact List.mem_cons_self
    · exact h.dirty x hx
  · rw [hnames, ← hnames file]
    exact h.created
  · rw [hnames]
    exact hdistinct

theorem writeBytes_triple {f : NewFile} {file : HostFile} (hfiles : ∀ e ∈ files, e.1 ∈ names)
    (hname : f.name ∈ names) :
    Triple (Held t s₀ true (files ++ [(f.name, file)]) (.file f.name :: pending)) (writeBytes t f)
      (fun _ => Held t s₀ true (files ++ [(f.name, { file with bytes := f.content })])
        (.file f.name :: pending))
      fun _ => Unfinished t s₀ names := by
  have hkept : ∀ file : HostFile, ∀ e ∈ files ++ [(f.name, file)], e.1 ∈ names := by
    intro file e he
    rcases List.mem_append.mp he with he | he
    · exact hfiles e he
    · rw [List.mem_singleton.mp he]
      exact hname
  apply triple_sysCall
  · exact fun s os h => h.blind os
  · exact fun n s h => (h.wrote _).unfinished (fun hopen => by cases hopen) (hkept _)
  · exact fun s h => h.unfinished (fun hopen => by cases hopen) (hkept _)
  · intro s s' h hs'
    cases hs'
    exact h.wrote f.content

theorem sync_triple {inode : Inode} (hfiles : ∀ e ∈ files, e.1 ∈ names) :
    Triple (Held t s₀ true files (inode :: pending)) (sync inode)
      (fun _ => Held t s₀ true files pending) fun _ => Unfinished t s₀ names := by
  apply triple_sysCall
  · exact fun s os h => h.blind os
  · exact fun _ s h => h.unfinished (fun hopen => by cases hopen) hfiles
  · exact fun s h => h.unfinished (fun hopen => by cases hopen) hfiles
  · intro s s' h hs'
    cases hs'
    refine ⟨h.fits, h.entries, ?_, h.made, h.handle, h.created, h.distinct, h.undo⟩
    intro x hx
    obtain ⟨hx, hne⟩ := List.mem_filter.mp hx
    exact (List.mem_cons.mp (h.dirty x hx)).resolve_left (of_decide_eq_true hne)

/-- The loop: every file whole, and synced. -/
theorem writeFiles_triple (fs : List NewFile) : ∀ {files : List (Text × HostFile)},
    (∀ e ∈ files, e.1 ∈ names) → (∀ f ∈ fs, f.name ∈ names) →
    Triple (Held t s₀ true files [.directory, .parent]) (writeFiles t fs)
      (fun _ => Held t s₀ true (files ++ fs.map (NewFile.file t)) [.directory, .parent])
      fun _ => Unfinished t s₀ names := by
  induction fs with
  | nil =>
      intro files _ _
      apply Triple.pure
      intro s h
      rw [List.map_nil, List.append_nil]
      exact h
  | cons f fs ih =>
      intro files hfiles hnames
      have hname := hnames f List.mem_cons_self
      have hkept : ∀ e ∈ files ++ [NewFile.file t f], e.1 ∈ names := by
        intro e he
        rcases List.mem_append.mp he with he | he
        · exact hfiles e he
        · rw [List.mem_singleton.mp he]
          exact hname
      refine Triple.bind (openNew_triple hfiles) fun _ => ?_
      refine Triple.bind (writeBytes_triple hfiles hname) fun _ => ?_
      refine Triple.bind (sync_triple hkept) fun _ => ?_
      have hrest := ih hkept fun g hg => hnames g (List.mem_cons_of_mem f hg)
      rw [List.append_assoc] at hrest
      exact hrest

/-- The `try`, from nothing made: the directory with all its files, and
nothing left to sync. -/
theorem tryBody_triple {fs : Option (List NewFile)}
    (hnames : ∀ l, fs = some l → ∀ f ∈ l, f.name ∈ names) :
    Triple (Untouched s₀) (tryBody t fs)
      (fun _ s => ∃ l, fs = some l ∧ Held t s₀ true (l.map (NewFile.file t)) [] s)
      fun _ => Unfinished t s₀ names := by
  refine Triple.bind statParent_triple fun _ => ?_
  refine Triple.bind makeDirectory_triple fun _ => ?_
  refine Triple.bind openDirectory_triple fun _ => ?_
  have hnone : ∀ e ∈ ([] : List (Text × HostFile)), e.1 ∈ names :=
    fun _ he => absurd he List.not_mem_nil
  refine Triple.bind (Triple.ofOption (fun l hl s h => And.intro hl h) fun _ s h =>
    h.unfinished (fun hopen => by cases hopen) hnone) fun l => ?_
  rintro s ⟨hl, h⟩
  have hfiles : ∀ e ∈ l.map (NewFile.file t), e.1 ∈ names := by
    intro e he
    obtain ⟨f, hf, rfl⟩ := List.mem_map.mp he
    exact hnames l hl f hf
  have hrest : Triple (Held t s₀ true [] [.directory, .parent])
      (do
        writeFiles t l
        sync .directory
        sync .parent)
      (fun _ => Held t s₀ true (l.map (NewFile.file t)) []) fun _ => Unfinished t s₀ names := by
    refine Triple.bind (writeFiles_triple l hnone (hnames l hl)) fun _ => ?_
    exact Triple.bind (sync_triple hfiles) fun _ => sync_triple hfiles
  exact Triple.weaken hrest (fun _ h => h) (fun _ s h => ⟨l, hl, h⟩) s h

-- ============================================================ the roll-back

/-- The directory has these files, whatever else has been changed. -/
structure Undoing (t : Target) (s₀ : Writing) (files : List (Text × HostFile)) (s : Writing) :
    Prop where
  absent : s₀.entries t.name = none
  entries : s.entries = Function.update s₀.entries t.name (some (t.directory files))
  undo : ∀ o ∈ s.undoOutcomes, o ∈ s₀.undoOutcomes

/-- What a roll-back that fails leaves: only the directory. -/
def Target.Remains (t : Target) (s₀ s : Writing) : Prop :=
  s₀.entries t.name = none ∧ (∃ n, some n ∈ s₀.undoOutcomes) ∧
    ∃ files, s.entries = Function.update s₀.entries t.name (some (t.directory files))

theorem undoCall_cases (does : Writing → Option Writing) (s : Writing) :
    let next := { s with undoOutcomes := s.undoOutcomes.tail }
    (∃ n, some n ∈ s.undoOutcomes ∧ undoCall does s = .error () next) ∨
      (∃ s', does next = some s' ∧ undoCall does s = .ok () s') ∨
      does next = none ∧ undoCall does s = .error () next := by
  intro next
  unfold undoCall
  dsimp only
  split
  next n hn => exact .inl ⟨n, List.mem_of_mem_head? hn, rfl⟩
  next =>
    cases hdoes : does next with
    | some s' => exact .inr (.inl ⟨s', rfl, rfl⟩)
    | none => exact .inr (.inr ⟨rfl, rfl⟩)

/-- The rule of a call of the roll-back that can be done. -/
theorem triple_undoCall {does : Writing → Option Writing} {Q : Writing → Prop}
    (hdoes : ∀ s, Undoing t s₀ files s → ∃ s', does s = some s' ∧ Q s') :
    Triple (Undoing t s₀ files) (undoCall does) (fun _ => Q) fun _ => t.Remains s₀ := by
  intro s h
  have hnext : Undoing t s₀ files { s with undoOutcomes := s.undoOutcomes.tail } :=
    ⟨h.absent, h.entries, fun o ho => h.undo o (List.mem_of_mem_tail ho)⟩
  obtain ⟨s'', hs'', hQ⟩ := hdoes _ hnext
  rcases undoCall_cases does s with ⟨n, hn, hrun⟩ | ⟨s', hs', hrun⟩ | ⟨hnone, -⟩
  · rw [hrun]
    exact ⟨h.absent, ⟨n, h.undo _ hn⟩, files, h.entries⟩
  · rw [hrun]
    rw [hs''] at hs'
    cases hs'
    exact hQ
  · rw [hs''] at hnone
    cases hnone

theorem unlink_triple {missingOk : Bool} {name : Text}
    (hname : missingOk = true ∨ name ∈ files.map Prod.fst) :
    Triple (Undoing t s₀ files) (unlink t missingOk name)
      (fun _ => Undoing t s₀ (files.filter (·.1 ≠ name))) fun _ => t.Remains s₀ := by
  apply triple_undoCall
  intro s h
  rw [change_directory h.entries]
  by_cases hmem : name ∈ files.map Prod.fst
  · rw [if_pos hmem]
    exact ⟨_, rfl, h.absent, rfl, h.undo⟩
  · have hall : files.filter (·.1 ≠ name) = files := by
      apply List.filter_eq_self.mpr
      intro e he
      exact decide_eq_true fun heq => hmem (heq ▸ List.mem_map_of_mem he)
    rw [if_neg hmem, if_pos (hname.resolve_right hmem), hall]
    exact ⟨_, rfl, h.absent, rfl, h.undo⟩

/-- After the unlinks, none of the names is there. -/
theorem unlinkAll_triple {missingOk : Bool} (names : List Text) :
    ∀ {files : List (Text × HostFile)},
    (missingOk = true ∨ names.Nodup ∧ ∀ name ∈ names, name ∈ files.map Prod.fst) →
    Triple (Undoing t s₀ files) (unlinkAll t missingOk names)
      (fun _ s => ∃ left, Undoing t s₀ left s ∧ ∀ e ∈ left, e ∈ files ∧ e.1 ∉ names)
      fun _ => t.Remains s₀ := by
  induction names with
  | nil =>
      intro files _
      apply Triple.pure
      exact fun s h => ⟨files, h, fun e he => ⟨he, List.not_mem_nil⟩⟩
  | cons name names ih =>
      intro files hthere
      have hfirst : missingOk = true ∨ name ∈ files.map Prod.fst :=
        hthere.imp_right fun h => h.2 name List.mem_cons_self
      have hrest : missingOk = true ∨ names.Nodup ∧
          ∀ n ∈ names, n ∈ (files.filter (·.1 ≠ name)).map Prod.fst := by
        refine hthere.imp_right fun ⟨hnodup, hmem⟩ => ?_
        obtain ⟨hnew, hnodup⟩ := List.nodup_cons.mp hnodup
        refine ⟨hnodup, fun n hn => ?_⟩
        obtain ⟨e, he, rfl⟩ := List.mem_map.mp (hmem n (List.mem_cons_of_mem name hn))
        have hne : e.1 ≠ name := fun heq => hnew (heq ▸ hn)
        exact List.mem_map_of_mem (List.mem_filter.mpr ⟨he, decide_eq_true hne⟩)
      refine Triple.bind (unlink_triple hfirst) fun _ => ?_
      refine Triple.weaken (ih hrest) (fun _ h => h) ?_
      rintro - s ⟨left, h, hleft⟩
      refine ⟨left, h, fun e he => ?_⟩
      obtain ⟨hkept, hnot⟩ := hleft e he
      obtain ⟨hmem, hne⟩ := List.mem_filter.mp hkept
      refine ⟨hmem, fun hin => ?_⟩
      rcases List.mem_cons.mp hin with heq | hin
      · exact of_decide_eq_true hne heq
      · exact hnot hin

theorem removeDirectory_triple :
    Triple (Undoing t s₀ []) (removeDirectory t) (fun _ s => s.entries = s₀.entries)
      fun _ => t.Remains s₀ := by
  apply triple_undoCall
  intro s h
  rw [h.entries, Function.update_self]
  refine ⟨_, rfl, ?_⟩
  dsimp only
  rw [Function.update_idem, ← h.absent, Function.update_eq_self]

/-- The roll-back, from whatever the `try` leaves. -/
theorem rollBack_triple {unlinked : Option (List Text)}
    (hunlinked : ∀ l, unlinked = some l → ∀ name ∈ names, name ∈ l) :
    Triple (Unfinished t s₀ names) (rollBack t unlinked) (fun _ s => s.entries = s₀.entries)
      fun _ => t.Remains s₀ := by
  rintro s (h | ⟨isOpen, files, pending, h, hclosed, hnames⟩)
  · have hrun : rollBack t unlinked s = .ok () s := by
      unfold rollBack
      rw [h.handle, h.made]
      rfl
    rw [hrun]
    exact h.entries
  · have hundoing : Undoing t s₀ files s := ⟨h.fits.absent, h.entries, fun o ho => h.undo ▸ ho⟩
    have hend : Triple (Undoing t s₀ files)
        (do
          if isOpen then unlinkAll t unlinked.isSome (unlinked.getD s.created)
          if true then removeDirectory t)
        (fun _ s => s.entries = s₀.entries) fun _ => t.Remains s₀ := by
      cases isOpen with
      | false =>
          cases hclosed rfl
          exact removeDirectory_triple
      | true =>
          have hthere : unlinked.isSome = true ∨ (unlinked.getD s.created).Nodup ∧
              ∀ name ∈ unlinked.getD s.created, name ∈ files.map Prod.fst := by
            cases unlinked with
            | some l => exact .inl rfl
            | none =>
                rw [Option.getD_none, h.created]
                exact .inr ⟨h.distinct, fun _ hname => hname⟩
          have hall : ∀ e ∈ files, e.1 ∈ unlinked.getD s.created := by
            intro e he
            cases unlinked with
            | some l => exact hunlinked l rfl e.1 (hnames e he)
            | none =>
                rw [Option.getD_none, h.created]
                exact List.mem_map_of_mem he
          refine Triple.bind (unlinkAll_triple _ hthere) fun _ => ?_
          rintro s' ⟨left, hundone, hleft⟩
          have hempty : left = [] := by
            apply List.eq_nil_iff_forall_not_mem.mpr
            intro e he
            exact (hleft e he).2 (hall e (hleft e he).1)
          rw [hempty] at hundone
          exact removeDirectory_triple s' hundone
    have hrun : rollBack t unlinked s = (do
        if isOpen then unlinkAll t unlinked.isSome (unlinked.getD s.created)
        if true then removeDirectory t : EStateM Unit Writing Unit) s := by
      unfold rollBack
      rw [h.handle, h.made]
    rw [hrun]
    exact hend s hundoing

-- ========================================================== all or nothing

/-- The directory is there, with these files and no others, owned, in a
private parent, beside what was there, and all of it is synced. -/
structure Made (t : Target) (fs : List NewFile) (s₀ s : Writing) : Prop where
  fits : t.Fits s₀
  entries : s.entries
    = Function.update s₀.entries t.name (some (t.directory (fs.map (NewFile.file t))))
  distinct : (fs.map NewFile.name).Nodup
  synced : s.dirty = []

/-- What a call ends in: all is made, or nothing is, or a call of the
roll-back failed and the new directory remains. -/
def AllOrNothing (t : Target) (files : Option (List NewFile)) (s₀ : Writing) :
    EStateM.Result WriteError Writing Unit → Prop
  | .ok _ s => ∃ fs, files = some fs ∧ Made t fs s₀ s
  | .error .rollBack s => t.Remains s₀ s
  | .error _ s => s.entries = s₀.entries

theorem writeDirectory_result {unlinked : Option (List Text)} {files : Option (List NewFile)}
    (hunlinked : ∀ l fs, unlinked = some l → files = some fs → ∀ f ∈ fs, f.name ∈ l)
    (s₀ : Writing) :
    AllOrNothing t files s₀ (writeDirectory t unlinked files s₀) := by
  have hstart : Untouched s₀
      { s₀ with dirty := [], madeDirectory := false, directoryOpen := false, created := [] } :=
    ⟨rfl, rfl, rfl, rfl, rfl, rfl, rfl, rfl⟩
  unfold writeDirectory
  split
  next => rfl
  have hopen := openParent_triple _ hstart
  split
  next s hrun =>
    rw [hrun] at hopen
    exact hopen.entries
  next s hrun =>
    rw [hrun] at hopen
    let names := (files.getD []).map NewFile.name
    have hnames : ∀ l, files = some l → ∀ f ∈ l, f.name ∈ names := by
      rintro l rfl f hf
      exact List.mem_map_of_mem hf
    have hgone : ∀ l, unlinked = some l → ∀ name ∈ names, name ∈ l := by
      intro l hl name hname
      obtain ⟨f, hf, rfl⟩ := List.mem_map.mp hname
      cases files with
      | none => cases hf
      | some fs => exact hunlinked l fs hl rfl f hf
    have hbody := tryBody_triple (t := t) hnames s hopen
    split
    next s' hrun =>
      rw [hrun] at hbody
      obtain ⟨l, hl, h⟩ := hbody
      refine ⟨l, hl, h.fits, h.entries, ?_, ?_⟩
      · have hdistinct := h.distinct
        rw [List.map_map] at hdistinct
        exact hdistinct
      · exact List.eq_nil_iff_forall_not_mem.mpr fun x hx => absurd (h.dirty x hx) List.not_mem_nil
    next s' hrun =>
      rw [hrun] at hbody
      have hback := rollBack_triple (t := t) hgone s' hbody
      split
      next s'' hrun =>
        rw [hrun] at hback
        exact hback
      next s'' hrun =>
        rw [hrun] at hback
        exact hback

theorem writeNoiseDirectory_result (t : Target) (header : Option (List UInt8))
    (device initiator : X25519PrivateKey lib) (s₀ : Writing) :
    AllOrNothing t (header.map fun header => noiseFiles header device initiator) s₀
      (writeNoiseDirectory t header device initiator s₀) :=
  writeDirectory_result (fun l _ hl => by cases hl) s₀

theorem writeRadioDirectory_result (t : Target) (sector caPem enrollment : List UInt8)
    (s₀ : Writing) :
    AllOrNothing t (some (radioFiles sector caPem enrollment)) s₀
      (writeRadioDirectory t sector caPem enrollment s₀) :=
  writeDirectory_result (fun l _ hl => by cases hl) s₀

/-- It unlinks both names, so that it need not know which it created. -/
theorem writeIdentityDirectory_result (t : Target) (key : X25519PrivateKey lib) (label : Text)
    (s₀ : Writing) :
    AllOrNothing t (some (identityFiles key label)) s₀
      (writeIdentityDirectory t key label s₀) := by
  unfold writeIdentityDirectory
  split
  next => rfl
  next =>
    apply writeDirectory_result
    intro l fs hl hfs f hf
    cases hl
    cases hfs
    rcases List.mem_cons.mp hf with rfl | hf
    · exact List.mem_cons_self
    · rw [List.mem_singleton.mp hf]
      exact List.mem_cons_of_mem _ List.mem_cons_self

/-- The provisioning tools are all or nothing: whatever call fails but
`os.close`, which is taken not to, wherever, and whatever the parent holds,
either the directory is there with exactly its files, private, whole and
synced, or the parent is as it was. A call of the roll-back has to fail for
a part to remain, and that is the tool's own directory. -/
theorem directories_all_or_nothing (t : Target) (s₀ : Writing) :
    (∀ (header : Option (List UInt8)) (device initiator : X25519PrivateKey lib),
      AllOrNothing t (header.map fun header => noiseFiles header device initiator) s₀
        (writeNoiseDirectory t header device initiator s₀)) ∧
    (∀ sector caPem enrollment : List UInt8,
      AllOrNothing t (some (radioFiles sector caPem enrollment)) s₀
        (writeRadioDirectory t sector caPem enrollment s₀)) ∧
    ∀ (key : X25519PrivateKey lib) (label : Text),
      AllOrNothing t (some (identityFiles key label)) s₀
        (writeIdentityDirectory t key label s₀) := by
  refine ⟨fun header device initiator => ?_, fun sector caPem enrollment => ?_,
    fun key label => ?_⟩
  · exact writeNoiseDirectory_result t header device initiator s₀
  · exact writeRadioDirectory_result t sector caPem enrollment s₀
  · exact writeIdentityDirectory_result t key label s₀

/-- An empty private directory, and how the calls end. -/
def emptyParent (outcomes undoOutcomes : List (Option Nat)) : Writing :=
  ⟨501, 0o700, fun _ => none, [], outcomes, undoOutcomes, false, false, []⟩

def benchTarget : Target := ⟨501, 0o022, text "enrolment"⟩

def noiseBench : EStateM WriteError Writing Unit :=
  writeNoiseDirectory benchTarget (some [35]) (.generated (tagKey 1)) (.generated (tagKey 2))

def identityBench : EStateM WriteError Writing Unit :=
  writeIdentityDirectory benchTarget (.generated (tagKey 3)) (text "laptop")

/-- The names in the directory, if it is there. -/
def Writing.left (t : Target) (s : Writing) : Option (List Text) :=
  match s.entries t.name with
  | some (.directory _ _ files) => some (files.map Prod.fst)
  | _ => none

/-- A write that fails half way is undone. -/
example :
    let outcomes := [none, none, none, none, none, some 1]
    (leaves noiseBench (emptyParent outcomes [])).left benchTarget = none ∧
      (leaves noiseBench (emptyParent outcomes [none, some 0])).left benchTarget = some [] := by
  decide +kernel

-- ============================================================= what is read

theorem Made.file {fs : List NewFile} (h : Made t fs s₀ s) (name : Text) :
    s.file? t name = (fs.map (NewFile.file t)).lookup name := by
  unfold Writing.file?
  rw [h.entries, Function.update_self]
  rfl

theorem AllOrNothing.made {files : Option (List NewFile)}
    {r : EStateM.Result WriteError Writing Unit} (h : AllOrNothing t files s₀ r)
    (hr : r = .ok () s) : ∃ fs, files = some fs ∧ Made t fs s₀ s := by
  rw [hr] at h
  exact h

/-- What they return from can be used: `load_noise_identity` reads from the
directory of `write_bundle` the two keys it was made from, and
`load_enrollment_public` the public key from that of `write_identity`. -/
theorem written_directories_load (decodeOther : List UInt8 → Option Text) (t : Target)
    (s₀ s : Writing) :
    (∀ (header : Option (List UInt8)) (device initiator : X25519PrivateKey lib),
      writeNoiseDirectory t header device initiator s₀ = .ok () s →
      loadNoiseIdentity decodeOther t.euid (s.file? t (text "noise-ik.json"))
        = .ok (initiator.priv.toList, device.pub.toList)) ∧
    ∀ (key : X25519PrivateKey lib) (label : Text),
      writeIdentityDirectory t key label s₀ = .ok () s →
      loadEnrollmentPublic decodeOther (s.file? t (text "enrollment.json"))
        = .ok key.pub.toList := by
  refine ⟨fun header device initiator hrun => ?_, fun key label hrun => ?_⟩
  · obtain ⟨fs, hfs, hmade⟩ :=
      (writeNoiseDirectory_result t header device initiator s₀).made hrun
    obtain ⟨bytes, -, rfl⟩ := Option.map_eq_some_iff.mp hfs
    rw [hmade.file]
    exact load_writeBundle decodeOther t.euid t.umask device initiator
  · have hlabel : labelRe label = true := by
      by_contra hnot
      unfold writeIdentityDirectory at hrun
      rw [if_pos hnot] at hrun
      cases hrun
    obtain ⟨fs, hfs, hmade⟩ := (writeIdentityDirectory_result t key label s₀).made hrun
    cases hfs
    rw [hmade.file]
    exact load_publicDoc decodeOther t.euid t.umask key hlabel

def returns (x : EStateM WriteError Writing Unit) (s : Writing) : Bool :=
  match x s with
  | .ok _ _ => true
  | .error _ _ => false

theorem returns_leaves {x : EStateM WriteError Writing Unit} (h : returns x s = true) :
    x s = .ok () (leaves x s) := by
  unfold returns at h
  unfold leaves
  split at h
  next hrun => rw [hrun]
  next => cases h

theorem written_directories_load_bench :
    loadNoiseIdentity (fun _ => none) 501
        ((leaves noiseBench (emptyParent [] [])).file? benchTarget (text "noise-ik.json"))
      = .ok ((tagKey 2).toList, (toyPublic (tagKey 1)).toList) ∧
    loadEnrollmentPublic (fun _ => none)
        ((leaves identityBench (emptyParent [] [])).file? benchTarget (text "enrollment.json"))
      = .ok (toyPublic (tagKey 3)).toList := by
  have hnoise : returns noiseBench (emptyParent [] []) = true := by decide +kernel
  have hidentity : returns identityBench (emptyParent [] []) = true := by decide +kernel
  constructor
  · apply (@written_directories_load (toyCrypto none) (fun _ => none) benchTarget
      (emptyParent [] []) (leaves noiseBench (emptyParent [] []))).1 (some [35])
      (.generated (tagKey 1)) (.generated (tagKey 2))
    exact returns_leaves hnoise
  · apply (@written_directories_load (toyCrypto none) (fun _ => none) benchTarget
      (emptyParent [] []) (leaves identityBench (emptyParent [] []))).2
      (.generated (tagKey 3)) (text "laptop")
    exact returns_leaves hidentity

end PicoBridge
