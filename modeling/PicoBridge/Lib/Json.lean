/-
JSON as Python's `json` module has it: `loads` of a text, and `dumps` with
`indent=2` of an object of numbers and strings.

A text is a list of code points, since a Python string can hold a lone
surrogate. A number with a fraction or an exponent keeps its digits and its
exponent, not the double nearest to it. The fuel of the scanners is the
length of the text: each step takes a character. The interpreter's limit on
nesting is not modelled.
-/
import Mathlib.Algebra.Ring.Nat
import Mathlib.Data.List.Basic
import Mathlib.Data.Rat.Defs

namespace Lib.Json

/-- A Python string. -/
abbrev Text := List Nat

/-- A literal. -/
def text (s : String) : Text := s.toList.map Char.toNat

/-- What `loads` returns. -/
inductive Value where
  | null
  | bool (b : Bool)
  | int (n : Int)
  | float (negative : Bool) (digits : Nat) (exponent : Int)
  | nan
  | infinity (negative : Bool)
  | str (s : Text)
  | arr (items : List Value)
  | obj (members : List (Text × Value))

/-- `members.get(key)`: a later member of the same name stands. -/
def get (members : List (Text × Value)) (key : Text) : Option Value :=
  (members.reverse.find? fun m => m.1 = key).map Prod.snd

/-- `value == 1`: the integer, `True`, and every decimal that rounds to
the double 1.0. -/
def isOne : Option Value → Bool
  | some (.bool b) => b
  | some (.int n) => n = 1
  | some (.float negative digits exponent) =>
      let value : Rat := if 0 ≤ exponent then digits * 10 ^ exponent.toNat
        else digits / 10 ^ (-exponent).toNat
      !negative && decide (1 - 1 / 2 ^ 54 ≤ value) && decide (value ≤ 1 + 1 / 2 ^ 53)
  | _ => false

/-- `value == s` for a string. -/
def isStr (s : Text) : Option Value → Bool
  | some (.str s') => s' = s
  | _ => false

-- ============================================================ the scanners

/-- Behind white space. -/
def skipWs (s : Text) : Text := s.dropWhile fun c => c = 32 ∨ c = 9 ∨ c = 10 ∨ c = 13

def isDigit (c : Nat) : Bool := 48 ≤ c && c ≤ 57

def digitsValue (ds : Text) : Nat := ds.foldl (fun n c => 10 * n + (c - 48)) 0

def hexValue (c : Nat) : Option Nat :=
  if 48 ≤ c ∧ c ≤ 57 then some (c - 48)
  else if 97 ≤ c ∧ c ≤ 102 then some (c - 87)
  else if 65 ≤ c ∧ c ≤ 70 then some (c - 55)
  else none

/-- Four hexadecimal digits. -/
def hex4 : Text → Option (Nat × Text)
  | a :: b :: c :: d :: rest => do
      let a ← hexValue a
      let b ← hexValue b
      let c ← hexValue c
      let d ← hexValue d
      some (4096 * a + 256 * b + 16 * c + d, rest)
  | _ => none

/-- What follows a backslash. Two escaped surrogates are one character. -/
def scanEscape : Text → Option (Nat × Text)
  | 34 :: rest => some (34, rest)
  | 92 :: rest => some (92, rest)
  | 47 :: rest => some (47, rest)
  | 98 :: rest => some (8, rest)
  | 102 :: rest => some (12, rest)
  | 110 :: rest => some (10, rest)
  | 114 :: rest => some (13, rest)
  | 116 :: rest => some (9, rest)
  | 117 :: rest => do
      let (high, rest) ← hex4 rest
      if 0xd800 ≤ high ∧ high ≤ 0xdbff then
        match rest with
        | 92 :: 117 :: behind => do
            let (low, behind) ← hex4 behind
            if 0xdc00 ≤ low ∧ low ≤ 0xdfff then
              some (0x10000 + 0x400 * (high - 0xd800) + (low - 0xdc00), behind)
            else some (high, rest)
        | _ => some (high, rest)
      else some (high, rest)
  | _ => none

/-- A string, behind its opening quote. -/
def scanString : Nat → Text → Option (Text × Text)
  | fuel + 1, c :: rest =>
      if c = 34 then some ([], rest)
      else if c < 32 then none
      else do
        let (c, rest) ← if c = 92 then scanEscape rest else some (c, rest)
        let (s, rest) ← scanString fuel rest
        some (c :: s, rest)
  | _, _ => none

/-- The fraction of a number, if there is one: its digits. -/
def scanFraction : Text → Option (Text × Text)
  | 46 :: rest =>
      let ds := rest.takeWhile isDigit
      if ds = [] then none else some (ds, rest.dropWhile isDigit)
  | _ => none

/-- The exponent of a number, if there is one. -/
def scanExponent : Text → Option (Int × Text)
  | e :: rest =>
      if e = 101 ∨ e = 69 then
        let (sign, rest) : Int × Text := match rest with
          | 45 :: rest => (-1, rest)
          | 43 :: rest => (1, rest)
          | _ => (1, rest)
        let ds := rest.takeWhile isDigit
        if ds = [] then none else some (sign * digitsValue ds, rest.dropWhile isDigit)
      else none
  | [] => none

/-- A number without its sign: no leading zeros. -/
def scanUnsigned (negative : Bool) (s : Text) : Option (Value × Text) :=
  let whole := if s.head? = some 48 then [48] else s.takeWhile isDigit
  if whole = [] then none
  else
    let rest := s.drop whole.length
    let fraction := scanFraction rest
    let (fractionDigits, rest) := fraction.getD ([], rest)
    let exponent := scanExponent rest
    let (exponentValue, rest) := exponent.getD (0, rest)
    if fraction.isNone ∧ exponent.isNone then
      let n : Int := digitsValue whole
      some (.int (if negative then -n else n), rest)
    else
      some (.float negative (digitsValue (whole ++ fractionDigits))
        (exponentValue - fractionDigits.length), rest)

/-- A word at the head of a text. -/
def scanWord (word : Text) (value : Value) (s : Text) : Option (Value × Text) :=
  if s.take word.length = word then some (value, s.drop word.length) else none

/-- A value that is not a container and not a string. -/
def scanPlain (s : Text) : Option (Value × Text) :=
  scanWord (text "null") .null s <|> scanWord (text "true") (.bool true) s <|>
    scanWord (text "false") (.bool false) s <|> scanWord (text "NaN") .nan s <|>
    scanWord (text "Infinity") (.infinity false) s <|>
    scanWord (text "-Infinity") (.infinity true) s <|>
    match s with
    | 45 :: rest => scanUnsigned true rest
    | _ => scanUnsigned false s

mutual

/-- A value. -/
def scanValue : Nat → Text → Option (Value × Text)
  | fuel + 1, c :: rest =>
      if c = 34 then do
        let (s, rest) ← scanString fuel rest
        some (.str s, rest)
      else if c = 123 then
        if (skipWs rest).head? = some 125 then some (.obj [], (skipWs rest).drop 1)
        else do
          let (members, rest) ← scanMembers fuel (skipWs rest)
          some (.obj members, rest)
      else if c = 91 then
        if (skipWs rest).head? = some 93 then some (.arr [], (skipWs rest).drop 1)
        else do
          let (items, rest) ← scanItems fuel (skipWs rest)
          some (.arr items, rest)
      else scanPlain (c :: rest)
  | _, _ => none

/-- The members of an object, up to its brace. -/
def scanMembers : Nat → Text → Option (List (Text × Value) × Text)
  | fuel + 1, 34 :: rest => do
      let (key, rest) ← scanString fuel rest
      match skipWs rest with
      | 58 :: rest => do
          let (value, rest) ← scanValue fuel (skipWs rest)
          match skipWs rest with
          | 44 :: rest => do
              let (members, rest) ← scanMembers fuel (skipWs rest)
              some ((key, value) :: members, rest)
          | 125 :: rest => some ([(key, value)], rest)
          | _ => none
      | _ => none
  | _, _ => none

/-- The items of an array, up to its bracket. -/
def scanItems : Nat → Text → Option (List Value × Text)
  | fuel + 1, s => do
      let (value, rest) ← scanValue fuel s
      match skipWs rest with
      | 44 :: rest => do
          let (items, rest) ← scanItems fuel (skipWs rest)
          some (value :: items, rest)
      | 93 :: rest => some ([value], rest)
      | _ => none
  | _, _ => none

end

/-- `json.loads`. -/
def loads (s : Text) : Option Value := do
  let (value, rest) ← scanValue (s.length + 1) (skipWs s)
  if skipWs rest = [] then some value else none

-- ============================================================= the printer

/-- A member's value that is printed here. -/
inductive Scalar where
  | int (n : Int)
  | str (s : Text)

def Scalar.value : Scalar → Value
  | .int n => .int n
  | .str s => .str s

def hexDigit (d : Nat) : Nat := if d < 10 then 48 + d else 87 + d

/-- `\uXXXX`. -/
def escapeUnit (u : Nat) : Text :=
  [92, 117, hexDigit (u / 4096), hexDigit (u / 256 % 16), hexDigit (u / 16 % 16), hexDigit (u % 16)]

/-- A character of a string, with `ensure_ascii`. -/
def escape (c : Nat) : Text :=
  if c = 34 then [92, 34]
  else if c = 92 then [92, 92]
  else if c = 10 then [92, 110]
  else if c = 13 then [92, 114]
  else if c = 9 then [92, 116]
  else if c = 12 then [92, 102]
  else if c = 8 then [92, 98]
  else if 32 ≤ c ∧ c ≤ 126 then [c]
  else if c < 0x10000 then escapeUnit c
  else escapeUnit (0xd800 + (c - 0x10000) / 0x400) ++ escapeUnit (0xdc00 + (c - 0x10000) % 0x400)

def dumpsStr (s : Text) : Text := 34 :: s.flatMap escape ++ [34]

def Scalar.dumps : Scalar → Text
  | .int n => text (toString n)
  | .str s => dumpsStr s

/-- A member on its line, indented by two. -/
def dumpsMember (m : Text × Scalar) : Text := [32, 32] ++ dumpsStr m.1 ++ [58, 32] ++ m.2.dumps

/-- The lines of an object, up to its brace. -/
def dumpsMembers : List (Text × Scalar) → Text
  | [] => [125]
  | [m] => dumpsMember m ++ [10, 125]
  | m :: m' :: members => dumpsMember m ++ [44, 10] ++ dumpsMembers (m' :: members)

/-- `json.dumps(members, indent=2)`. -/
def dumps (members : List (Text × Scalar)) : Text :=
  if members = [] then [123, 125] else [123, 10] ++ dumpsMembers members

-- ============================================================ there and back

/-- Printable ASCII that is not escaped. -/
def Plain (c : Nat) : Prop := 32 ≤ c ∧ c ≤ 126 ∧ c ≠ 34 ∧ c ≠ 92

instance : DecidablePred Plain := fun _ => inferInstanceAs (Decidable (_ ∧ _))

theorem escape_plain {c : Nat} (h : Plain c) : escape c = [c] := by
  obtain ⟨hlow, hhigh, hquote, hback⟩ := h
  unfold escape
  rw [if_neg hquote, if_neg hback, if_neg (by omega), if_neg (by omega), if_neg (by omega),
    if_neg (by omega), if_neg (by omega), if_pos ⟨hlow, hhigh⟩]

theorem dumpsStr_plain {s : Text} (h : ∀ c ∈ s, Plain c) : dumpsStr s = 34 :: s ++ [34] := by
  have hflat : s.flatMap escape = s := by
    induction s with
    | nil => rfl
    | cons c s ih =>
        rw [List.flatMap_cons, escape_plain (h c List.mem_cons_self),
          ih fun c' hc' => h c' (List.mem_cons_of_mem c hc')]
        rfl
  unfold dumpsStr
  rw [hflat]

theorem dumpsStr_ascii {s : Text} (h : ∀ c ∈ s, Plain c) : ∀ c ∈ dumpsStr s, 0 < c ∧ c < 128 := by
  intro c hc
  rw [dumpsStr_plain h] at hc
  simp only [List.cons_append, List.mem_cons, List.mem_append, List.not_mem_nil, or_false] at hc
  rcases hc with rfl | hc | rfl
  · decide
  · obtain ⟨hlow, hhigh, -⟩ := h c hc
    omega
  · decide

theorem scanString_plain {s : Text} (h : ∀ c ∈ s, Plain c) (rest : Text) : ∀ {fuel : Nat},
    s.length < fuel → scanString fuel (s ++ 34 :: rest) = some (s, rest) := by
  induction s with
  | nil =>
      intro fuel hfuel
      obtain ⟨fuel, rfl⟩ := Nat.exists_eq_succ_of_ne_zero (Nat.ne_of_gt hfuel)
      rfl
  | cons c s ih =>
      intro fuel hfuel
      obtain ⟨fuel, rfl⟩ := Nat.exists_eq_succ_of_ne_zero (Nat.ne_of_gt (Nat.zero_lt_of_lt hfuel))
      obtain ⟨hlow, -, hquote, hback⟩ := h c List.mem_cons_self
      have hs := ih (fun c' hc' => h c' (List.mem_cons_of_mem c hc')) (Nat.lt_of_succ_lt_succ hfuel)
      rw [List.cons_append, scanString, if_neg hquote, if_neg (by omega), if_neg hback]
      simp only [Option.bind_eq_bind, Option.bind_some, hs]

/-- A member's value that is read back, from its comma or its line's
end. -/
structure Scalar.Reads (x : Scalar) : Prop where
  ascii : ∀ c ∈ x.dumps, 0 < c ∧ c < 128
  head : ∀ rest, skipWs (x.dumps ++ rest) = x.dumps ++ rest
  scan : ∀ fuel rest, x.dumps.length ≤ fuel → (rest.head? = some 44 ∨ rest.head? = some 10) →
    scanValue fuel (x.dumps ++ rest) = some (x.value, rest)

theorem skipWs_cons {c : Nat} (h : ¬(c = 32 ∨ c = 9 ∨ c = 10 ∨ c = 13)) (rest : Text) :
    skipWs (c :: rest) = c :: rest := by
  unfold skipWs
  rw [List.dropWhile_cons, if_neg (by simpa using h)]

theorem reads_str {s : Text} (h : ∀ c ∈ s, Plain c) : (Scalar.str s).Reads := by
  have hdumps : (Scalar.str s).dumps = 34 :: s ++ [34] := dumpsStr_plain h
  refine ⟨dumpsStr_ascii h, ?_, ?_⟩
  · intro rest
    rw [hdumps]
    exact skipWs_cons (by decide) _
  · intro fuel rest hfuel _
    rw [hdumps] at hfuel ⊢
    simp only [List.length_append, List.length_cons, List.length_nil] at hfuel
    obtain ⟨fuel, rfl⟩ := Nat.exists_eq_succ_of_ne_zero (show fuel ≠ 0 by omega)
    have hs := scanString_plain h rest (show s.length < fuel by omega)
    rw [List.cons_append, List.cons_append, List.append_assoc, List.cons_append, List.nil_append,
      scanValue, if_pos rfl, hs]
    rfl

theorem reads_one : (Scalar.int 1).Reads := by
  have hdumps : (Scalar.int 1).dumps = [49] := by decide
  refine ⟨by rw [hdumps]; decide, ?_, ?_⟩
  · intro rest
    rw [hdumps]
    exact skipWs_cons (by decide) _
  · intro fuel rest hfuel hrest
    rw [hdumps] at hfuel ⊢
    obtain ⟨fuel, rfl⟩ := Nat.exists_eq_succ_of_ne_zero (Nat.ne_of_gt hfuel)
    match rest, hrest with
    | 44 :: rest, _ => rfl
    | 10 :: rest, _ => rfl

theorem dumpsMember_length {m : Text × Scalar} (hkey : ∀ c ∈ m.1, Plain c) :
    (dumpsMember m).length = m.1.length + 6 + m.2.dumps.length := by
  unfold dumpsMember
  rw [dumpsStr_plain hkey]
  simp only [List.length_append, List.length_cons, List.length_nil]
  omega

theorem skipWs_member (m : Text × Scalar) (rest : Text) :
    skipWs (dumpsMember m ++ rest) = dumpsStr m.1 ++ 58 :: 32 :: (m.2.dumps ++ rest) := by
  unfold dumpsMember dumpsStr
  simp [skipWs]

/-- The lines of an object begin with a quote. -/
theorem skipWs_members {members : List (Text × Scalar)} (hne : members ≠ []) (rest : Text) :
    ∃ behind, skipWs (dumpsMembers members ++ rest) = 34 :: behind := by
  match members, hne with
  | [m], _ =>
      rw [dumpsMembers, List.append_assoc, skipWs_member]
      exact ⟨_, rfl⟩
  | m :: m' :: members, _ =>
      rw [dumpsMembers, List.append_assoc, List.append_assoc, skipWs_member]
      exact ⟨_, rfl⟩

/-- A member, read back up to its comma or its line's end. -/
theorem scanMembers_member {m : Text × Scalar} (hkey : ∀ c ∈ m.1, Plain c) (hvalue : m.2.Reads)
    {fuel : Nat} (hfuel : (dumpsMember m).length ≤ fuel) {rest : Text}
    (hrest : rest.head? = some 44 ∨ rest.head? = some 10) :
    ∃ behind, skipWs (dumpsMember m ++ rest) = 34 :: behind ∧
      scanString fuel behind = some (m.1, 58 :: 32 :: (m.2.dumps ++ rest)) ∧
      scanValue fuel (skipWs (32 :: (m.2.dumps ++ rest))) = some (m.2.value, rest) := by
  have hlength := dumpsMember_length hkey
  refine ⟨m.1 ++ 34 :: 58 :: 32 :: (m.2.dumps ++ rest), ?_, ?_, ?_⟩
  · rw [skipWs_member, dumpsStr_plain hkey]
    simp only [List.cons_append, List.append_assoc, List.nil_append]
  · exact scanString_plain hkey _ (by omega)
  · have hskip : skipWs (32 :: (m.2.dumps ++ rest)) = skipWs (m.2.dumps ++ rest) := rfl
    rw [hskip, hvalue.head]
    exact hvalue.scan fuel rest (by omega) hrest

/-- The members, read back from their lines. -/
theorem scanMembers_dumps (members : List (Text × Scalar)) (rest : Text) :
    (∀ m ∈ members, (∀ c ∈ m.1, Plain c) ∧ m.2.Reads) → members ≠ [] →
    ∀ {fuel : Nat}, (dumpsMembers members).length ≤ fuel →
      scanMembers fuel (skipWs (dumpsMembers members ++ rest))
        = some (members.map fun m => (m.1, m.2.value), rest) := by
  induction members using dumpsMembers.induct with
  | case1 => exact fun _ hne => absurd rfl hne
  | case2 m =>
      intro h _ fuel hfuel
      obtain ⟨hkey, hvalue⟩ := h m List.mem_cons_self
      rw [dumpsMembers, List.length_append] at hfuel
      obtain ⟨fuel, rfl⟩ := Nat.exists_eq_succ_of_ne_zero (show fuel ≠ 0 by
        simp only [List.length_cons] at hfuel
        omega)
      obtain ⟨behind, hbehind, hstring, hscan⟩ := @scanMembers_member m hkey hvalue fuel
        (by simp only [List.length_cons] at hfuel; omega) (10 :: 125 :: rest) (.inr rfl)
      rw [dumpsMembers, List.append_assoc]
      have hjoin : [10, 125] ++ rest = 10 :: 125 :: rest := rfl
      rw [hjoin, hbehind, scanMembers, hstring]
      have hcolon : ∀ s, skipWs (58 :: s) = 58 :: s := skipWs_cons (by decide)
      have hbrace : skipWs (10 :: 125 :: rest) = 125 :: rest := rfl
      simp only [Option.bind_eq_bind, Option.bind_some, hcolon, hscan, hbrace, List.map_cons,
        List.map_nil]
  | case3 m m' members ih =>
      intro h _ fuel hfuel
      obtain ⟨hkey, hvalue⟩ := h m List.mem_cons_self
      rw [dumpsMembers, List.length_append, List.length_append] at hfuel
      obtain ⟨fuel, rfl⟩ := Nat.exists_eq_succ_of_ne_zero (show fuel ≠ 0 by
        simp only [List.length_cons] at hfuel
        omega)
      simp only [List.length_cons, List.length_nil] at hfuel
      have hmembers := @ih (fun m hm => h m (List.mem_cons_of_mem _ hm)) (List.cons_ne_nil _ _)
        fuel (by omega)
      obtain ⟨behind, hbehind, hstring, hscan⟩ := @scanMembers_member m hkey hvalue fuel
        (by omega) (44 :: 10 :: (dumpsMembers (m' :: members) ++ rest)) (.inl rfl)
      have hjoin : dumpsMembers (m :: m' :: members) ++ rest
          = dumpsMember m ++ 44 :: 10 :: (dumpsMembers (m' :: members) ++ rest) := by
        rw [dumpsMembers, List.append_assoc, List.append_assoc]
        rfl
      rw [hjoin, hbehind, scanMembers, hstring]
      have hcolon : ∀ s, skipWs (58 :: s) = 58 :: s := skipWs_cons (by decide)
      have hcomma : ∀ s, skipWs (44 :: s) = 44 :: s := skipWs_cons (by decide)
      have hline : ∀ s, skipWs (10 :: s) = skipWs s := fun s => rfl
      simp only [Option.bind_eq_bind, Option.bind_some, hcolon, hscan, hcomma, hline, hmembers,
        List.map_cons]

/-- `loads` undoes `dumps`, whatever white space follows. -/
theorem loads_dumps {members : List (Text × Scalar)}
    (h : ∀ m ∈ members, (∀ c ∈ m.1, Plain c) ∧ m.2.Reads) (hne : members ≠ []) {tail : Text}
    (htail : skipWs tail = []) :
    loads (dumps members ++ tail) = some (.obj (members.map fun m => (m.1, m.2.value))) := by
  obtain ⟨behind, hbehind⟩ := skipWs_members hne tail
  have hmembers := @scanMembers_dumps members tail h hne
    ((dumpsMembers members ++ tail).length + 2)
    (by rw [List.length_append]; omega)
  have hopen : ∀ s, skipWs (123 :: s) = 123 :: s := skipWs_cons (by decide)
  have hline : skipWs (10 :: (dumpsMembers members ++ tail))
      = skipWs (dumpsMembers members ++ tail) := rfl
  have hdumps : dumps members ++ tail = 123 :: 10 :: (dumpsMembers members ++ tail) := by
    unfold dumps
    rw [if_neg hne, List.append_assoc]
    rfl
  have hquote : (skipWs (dumpsMembers members ++ tail)).head? ≠ some 125 := by
    rw [hbehind, List.head?_cons]
    decide
  unfold loads
  rw [hdumps, hopen, List.length_cons, List.length_cons, scanValue, if_neg (by decide),
    if_pos rfl, hline, if_neg hquote, hmembers]
  simp only [Option.bind_eq_bind, Option.bind_some, htail, if_true]

theorem dumps_length_le {members : List (Text × Scalar)}
    (h : ∀ m ∈ members, ∀ c ∈ m.1, Plain c) :
    (dumps members).length ≤ 4 + (members.map fun m => m.1.length + 8 + m.2.dumps.length).sum := by
  have hlines : (dumpsMembers members).length
      ≤ 2 + (members.map fun m => m.1.length + 8 + m.2.dumps.length).sum := by
    induction members using dumpsMembers.induct with
    | case1 => decide
    | case2 m =>
        have hm := dumpsMember_length (h m List.mem_cons_self)
        simp only [dumpsMembers, List.length_append, List.length_cons, List.length_nil,
          List.map_cons, List.map_nil, List.sum_cons, List.sum_nil]
        omega
    | case3 m m' members ih =>
        have hm := dumpsMember_length (h m List.mem_cons_self)
        have hrest := ih fun m hm => h m (List.mem_cons_of_mem _ hm)
        rw [dumpsMembers, List.map_cons, List.sum_cons, List.length_append, List.length_append]
        simp only [List.length_cons, List.length_nil]
        omega
  unfold dumps
  split
  · rw [List.length_cons, List.length_cons, List.length_nil]
    omega
  · rw [List.length_append, List.length_cons, List.length_cons, List.length_nil]
    omega

/-- And what it prints is ASCII. -/
theorem dumps_ascii {members : List (Text × Scalar)}
    (h : ∀ m ∈ members, (∀ c ∈ m.1, Plain c) ∧ m.2.Reads) :
    ∀ c ∈ dumps members, 0 < c ∧ c < 128 := by
  have hmember : ∀ m ∈ members, ∀ c ∈ dumpsMember m, 0 < c ∧ c < 128 := by
    intro m hm c hc
    obtain ⟨hkey, hvalue⟩ := h m hm
    simp only [dumpsMember, List.mem_append, List.mem_cons, List.not_mem_nil, or_false] at hc
    rcases hc with ((hc | hc) | hc | hc) | hc
    · omega
    · exact dumpsStr_ascii hkey c (by simpa using hc)
    · omega
    · omega
    · exact hvalue.ascii c hc
  have hlines : ∀ c ∈ dumpsMembers members, 0 < c ∧ c < 128 := by
    clear h
    induction members using dumpsMembers.induct with
    | case1 => decide
    | case2 m =>
        intro c hc
        rw [dumpsMembers, List.mem_append] at hc
        rcases hc with hc | hc
        · exact hmember m List.mem_cons_self c hc
        · simp only [List.mem_cons, List.not_mem_nil, or_false] at hc
          omega
    | case3 m m' members ih =>
        intro c hc
        rw [dumpsMembers, List.mem_append, List.mem_append] at hc
        rcases hc with (hc | hc) | hc
        · exact hmember m List.mem_cons_self c hc
        · simp only [List.mem_cons, List.not_mem_nil, or_false] at hc
          omega
        · exact ih (fun m hm => hmember m (List.mem_cons_of_mem _ hm)) c hc
  intro c hc
  unfold dumps at hc
  split at hc
  · simp only [List.mem_cons, List.not_mem_nil, or_false] at hc
    omega
  · rw [List.mem_append] at hc
    rcases hc with hc | hc
    · simp only [List.mem_cons, List.not_mem_nil, or_false] at hc
      omega
    · exact hlines c hc

end Lib.Json
