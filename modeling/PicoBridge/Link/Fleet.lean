/-
`tools/pico_fleet.py`: the aliases of a fleet file, and the targets they
stand for.

# What is modelled how

- A file is its text, or none where it cannot be read. What `read_text`
  and `json.loads` raise beyond what is caught is not modelled.
- A token is a text; `None`, for a target that is not given, is none.

# Two rules that overlap

An alias may have dots in it, and may be written as a MAC address is with
dashes. Both are what `looks_like_host` takes for a literal, so such an
alias is in the fleet and `resolve` does not look there.
-/
import PicoBridge.Lib.Dict
import PicoBridge.Lib.Json
import PicoBridge.Lib.Pattern
import Mathlib.Data.List.DropRight

namespace PicoBridge

open Lib (Dict)
open Lib.Json
open Lib.Pattern

-- =============================================================== the patterns

def asciiAlnum (c : Nat) : Bool :=
  (65 ≤ c && c ≤ 90) || (97 ≤ c && c ≤ 122) || (48 ≤ c && c ≤ 57)

def asciiHex (c : Nat) : Bool :=
  (48 ≤ c && c ≤ 57) || (97 ≤ c && c ≤ 102) || (65 ≤ c && c ≤ 70)

/-- `[A-Za-z0-9][A-Za-z0-9_.-]{0,31}`. -/
def aliasPattern : List (Repeat Nat) :=
  [⟨asciiAlnum, 1, 1⟩, ⟨fun c => asciiAlnum c || c == 95 || c == 46 || c == 45, 0, 31⟩]

/-- `(?:[0-9a-fA-F]{2}[:-]){5}[0-9a-fA-F]{2}`. -/
def macPattern : List (Repeat Nat) :=
  (List.replicate 5 [⟨asciiHex, 2, 2⟩, ⟨fun c => c == 58 || c == 45, 1, 1⟩]).flatten ++
    [⟨asciiHex, 2, 2⟩]

/-- `_ALIAS_RE.fullmatch`. -/
def aliasRe (s : Text) : Bool := fullmatch aliasPattern s

/-- `MAC_RE.fullmatch`. -/
def macRe (s : Text) : Bool := fullmatch macPattern s

-- ================================================================== the fleet

/-- `str.isspace` of a character. -/
def isSpace (c : Nat) : Bool :=
  (9 ≤ c && c ≤ 13) || (28 ≤ c && c ≤ 32) || c == 0x85 || c == 0xa0 || c == 0x1680 ||
    (0x2000 ≤ c && c ≤ 0x200a) || c == 0x2028 || c == 0x2029 || c == 0x202f || c == 0x205f ||
    c == 0x3000

/-- `s.strip()`. -/
def strip (s : Text) : Text := (s.dropWhile isSpace).rdropWhile isSpace

/-- What is kept of an entry. -/
structure FleetEntry where
  host : Option Text
  ble : Option Text
  identity : Option Text
  deriving DecidableEq

/-- An entry that nothing is kept of. -/
def FleetEntry.isEmpty (e : FleetEntry) : Bool :=
  e.host.isNone && e.ble.isNone && e.identity.isNone

/-- The value that is kept under a key. -/
def cleanValue (value : Option Value) : Option Text :=
  match value with
  | some (.str s) => if strip s ≠ [] then some (strip s) else none
  | _ => none

/-- `clean`. -/
def cleanEntry (entry : List (Text × Value)) : FleetEntry where
  host := cleanValue (get entry (text "host"))
  ble := cleanValue (get entry (text "ble"))
  identity := cleanValue (get entry (text "identity"))

/-- The loop of `load_fleet`: what is kept under an alias. -/
def keepAlias (name : Text) (entry : Value) : Option FleetEntry :=
  match entry with
  | .obj entry =>
      if ¬aliasRe name then none
      else if (cleanEntry entry).isEmpty then none
      else some (cleanEntry entry)
  | _ => none

/-- `load_fleet`. -/
def loadFleet (file : Option Text) : Dict Text FleetEntry :=
  match file.bind loads with
  | some (.obj raw) => (Dict.ofList raw).filterMap keepAlias
  | _ => Dict.empty

/-- `looks_like_host`. -/
def looksLikeHost (token : Text) : Bool :=
  let host := token.takeWhile (· != 58)
  macRe host || host.contains 46

/-- `resolve`. -/
def resolve (token : Option Text) (file : Option Text) : Option FleetEntry :=
  match token with
  | none => none
  | some token => if looksLikeHost token then none else (loadFleet file).get token

-- ================================================================ the aliases

/-- A file has an object that defines an alias, with an entry that
something is kept of. -/
def DefinesAlias (file : Option Text) (name : Text) (clean : FleetEntry) : Prop :=
  ∃ s raw entry, file = some s ∧ loads s = some (.obj raw) ∧
    get raw name = some (.obj entry) ∧ aliasRe name = true ∧
    clean = cleanEntry entry ∧ clean.isEmpty = false

theorem keepAlias_eq_some {name : Text} {entry : Value} {clean : FleetEntry} :
    keepAlias name entry = some clean ↔
      ∃ members, entry = .obj members ∧ aliasRe name = true ∧ clean = cleanEntry members ∧
        clean.isEmpty = false := by
  cases entry with
  | obj members =>
      rw [keepAlias]
      constructor
      · intro h
        split at h
        · cases h
        next hname =>
          split at h
          · cases h
          next hempty =>
            cases h
            rw [Bool.not_eq_true] at hempty
            exact ⟨members, rfl, not_not.mp hname, rfl, hempty⟩
      · rintro ⟨members', hmembers, hname, rfl, hempty⟩
        cases hmembers
        rw [if_neg (not_not_intro hname), if_neg (by rw [hempty]; exact Bool.false_ne_true)]
  | _ =>
      refine iff_of_false (fun h => by cases h) ?_
      rintro ⟨members, hmembers, -⟩
      cases hmembers

theorem get_dict (raw : List (Text × Value)) (key : Text) :
    (Dict.ofList raw).get key = get raw key := by
  rw [Dict.get_ofList, Dict.find_eq]
  rfl

/-- The fleet has the aliases that its file defines, and no others. -/
theorem loadFleet_get_iff {file : Option Text} {name : Text} {clean : FleetEntry} :
    (loadFleet file).get name = some clean ↔ DefinesAlias file name clean := by
  unfold loadFleet
  constructor
  · intro h
    split at h
    next raw hraw =>
      obtain ⟨s, rfl, hloads⟩ := Option.bind_eq_some_iff.mp hraw
      rw [Dict.get_filterMap, get_dict] at h
      obtain ⟨entry, hentry, hkeep⟩ := Option.bind_eq_some_iff.mp h
      obtain ⟨members, rfl, hname, hclean, hempty⟩ := keepAlias_eq_some.mp hkeep
      exact ⟨s, raw, members, rfl, hloads, hentry, hname, hclean, hempty⟩
    · cases h
  · rintro ⟨s, raw, members, rfl, hloads, hentry, hname, hclean, hempty⟩
    rw [Option.bind_some, hloads]
    dsimp only
    rw [Dict.get_filterMap, get_dict, hentry, Option.bind_some]
    exact keepAlias_eq_some.mpr ⟨members, rfl, hname, hclean, hempty⟩

/-- An alias has no colon. -/
theorem aliasRe_colon {name : Text} (h : aliasRe name = true) : ∀ c ∈ name, (c != 58) = true := by
  intro c hc
  obtain ⟨r, hr, hcls⟩ := (fullmatch_iff.mp h).mem c hc
  rw [bne_iff_ne]
  rintro rfl
  unfold aliasPattern at hr
  rcases List.mem_cons.mp hr with rfl | hr
  · cases hcls
  · cases List.mem_singleton.mp hr
    cases hcls

/-- A host, for an alias: a MAC address, or what has a dot. -/
theorem looksLikeHost_alias {name : Text} (h : aliasRe name = true) :
    looksLikeHost name = true ↔ macRe name = true ∨ 46 ∈ name := by
  have hwhole : name.takeWhile (· != 58) = name := List.takeWhile_eq_self_iff.mpr (aliasRe_colon h)
  unfold looksLikeHost
  rw [hwhole, Bool.or_eq_true, List.contains_iff_mem]

/-- Tokens against the fleet of every file: `resolve` returns what the fleet
has, and nothing for a token that is no alias of it, but for the aliases
that are written as a MAC address is or with a dot. -/
theorem resolve_iff (file : Option Text) (token : Text) :
    resolve (some token) file = (loadFleet file).get token ↔
      ¬((∃ clean, DefinesAlias file token clean) ∧ (macRe token = true ∨ 46 ∈ token)) := by
  rw [resolve]
  match hget : (loadFleet file).get token with
  | none =>
      have hnone : ¬∃ clean, DefinesAlias file token clean := by
        rintro ⟨clean, hdefines⟩
        rw [loadFleet_get_iff.mpr hdefines] at hget
        cases hget
      exact iff_of_true (ite_self none) fun h => hnone h.1
  | some clean =>
      have hdefines := loadFleet_get_iff.mp hget
      have hname : aliasRe token = true := by
        obtain ⟨s, raw, entry, -, -, -, hname, -⟩ := hdefines
        exact hname
      have hhost := looksLikeHost_alias hname
      constructor
      · rintro h ⟨-, hliteral⟩
        rw [if_pos (hhost.mpr hliteral)] at h
        cases h
      · intro h
        rw [if_neg fun hliteral => h ⟨⟨clean, hdefines⟩, hhost.mp hliteral⟩]

/-- A file whose alias has a dot. -/
def dottedFile : Text := text "\x7b\"lab.1\": \x7b\"host\": \"192.0.2.34\"\x7d\x7d"

/-- The alias is in the fleet, and is not resolved. -/
theorem dotted_not_resolved :
    (loadFleet (some dottedFile)).get (text "lab.1")
        = some ⟨some (text "192.0.2.34"), none, none⟩ ∧
      resolve (some (text "lab.1")) (some dottedFile) = none := by
  decide +kernel

end PicoBridge
