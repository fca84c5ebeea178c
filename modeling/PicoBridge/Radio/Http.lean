/-
`firmware/radio/http_parser.c`: the request recogniser, and what it makes
of a buffer that grows.

# What is modelled how

The recogniser is on the bytes it reads: a read at or beyond the end of
them is `none`, and so would be a loop over the headers that outran its
fuel. A result is `some` of what is returned.

# A buffer that grows

Before it looks at a line, the recogniser looks at every byte: for one that
cannot be in a request, and for the end marker. What it finds in a prefix
it finds again in the whole (`Scanned.append`).
-/
import PicoBridge.Lib.Cursor
import PicoBridge.Radio.Codec

namespace PicoBridge

open Lib.Cursor

-- =========================================================== the recogniser

def radioHttpMax : Nat := 1024

/-- `enum radio_http_result`. -/
inductive HttpResult where
  | more
  | root
  | health
  | bad
  | notFound
  | method
  | large
  deriving DecidableEq

/-- The bytes of a literal. -/
def ascii (s : String) : List UInt8 := encodeAscii s.toList

/-- `eq(p + o, n, s)`. -/
def eq (p : List UInt8) (o n : Nat) (s : List UInt8) : Option Bool :=
  if n ≠ s.length then some false else (readAt p o n).map (· == s)

/-- `c`, with a capital made small. -/
def lower (c : UInt8) : UInt8 := if 65 ≤ c ∧ c ≤ 90 then c + 32 else c

/-- The loop of `ieq`. -/
def ieqFrom (p : List UInt8) (o : Nat) : List UInt8 → Option Bool
  | [] => some true
  | c :: s => do
      let b ← p[o]?
      if lower b ≠ c then some false else ieqFrom p (o + 1) s

/-- `ieq(p + o, n, s)`. -/
def ieq (p : List UInt8) (o n : Nat) (s : List UInt8) : Option Bool :=
  if n ≠ s.length then some false else ieqFrom p o s

def token (c : UInt8) : Bool :=
  (97 ≤ c && c ≤ 122) || (65 ≤ c && c ≤ 90) || (48 ≤ c && c ≤ 57) ||
    (ascii "!#$%&'*+-.^_`|~").contains c

/-- Whether `p[i]` cannot be in a request. -/
def badOctet (p : List UInt8) (n i : Nat) : Option Bool := do
  let b ← p[i]?
  if b = 13 then
    if i + 1 < n then do
      let c ← p[i + 1]?
      some (c != 10)
    else some false
  else if b = 10 then
    if i = 0 then some true
    else do
      let c ← p[i - 1]?
      some (c != 13)
  else some (b < 32 || b > 126)

/-- Whether the end marker ends with `p[i]`. -/
def markerAt (p : List UInt8) (i : Nat) : Option Bool :=
  if i ≥ 3 then (readAt p (i - 3) 4).map (· == [13, 10, 13, 10]) else some false

/-- The first loop: `end`, or none for a byte that cannot be in a
request. -/
def scanFrom (p : List UInt8) (n i stop : Nat) : Option (Option Nat) :=
  if i < n then do
    let bad ← badOctet p n i
    if bad then some none
    else do
      let marker ← markerAt p i
      scanFrom p n (i + 1) (if marker ∧ stop = 0 then i + 1 else stop)
  else some (some stop)
termination_by n - i

/-- Whether no line ends at `line`. -/
def noLineEnd (p : List UInt8) (line : Nat) : Option Bool := do
  let b ← p[line]?
  if b = 13 then do
    let c ← p[line + 1]?
    some (c != 10)
  else some true

/-- The loop over the headers, from `pos`: `host` at its end, or none for a
header that is refused. -/
def headersFrom (p : List UInt8) (n : Nat) : Nat → Bool → Bool → Nat → Option (Option Bool)
  | 0, _, _, _ => none
  | fuel + 1, host, cl, pos =>
      if pos < n - 2 then do
        let stop ← advance (fun j => p[j]?.map (· != 13)) (n - 1) pos
        if stop = pos then some none
        else do
          let colon ← advance (fun j => p[j]?.map token) stop pos
          if colon = pos ∨ colon ≥ stop then some none
          else do
            let c ← p[colon]?
            if c ≠ 58 then some none
            else do
              let value ← advance (fun j => p[j]?.map (· == 32)) stop (colon + 1)
              let vend ← retreat (fun j => p[j]?.map (· == 32)) value stop
              if ← ieq p pos (colon - pos) (ascii "host") then
                if host then some none
                else if ← eq p value (vend - value) (ascii "192.168.4.1") then
                  headersFrom p n fuel true cl (stop + 2)
                else if ← eq p value (vend - value) (ascii "192.168.4.1:443") then
                  headersFrom p n fuel true cl (stop + 2)
                else some none
              else if ← ieq p pos (colon - pos) (ascii "content-length") then
                if cl then some none
                else if ← eq p value (vend - value) (ascii "0") then
                  headersFrom p n fuel host true (stop + 2)
                else some none
              else if ← ieq p pos (colon - pos) (ascii "transfer-encoding") then some none
              else if ← ieq p pos (colon - pos) (ascii "expect") then some none
              else if ← ieq p pos (colon - pos) (ascii "upgrade") then some none
              else headersFrom p n fuel host cl (stop + 2)
      else some (some host)

/-- What follows the first loop, where `end` is `n`. -/
def radioHttpRequest (p : List UInt8) (n : Nat) : Option HttpResult := do
  let line ← advance (noLineEnd p) (n - 1) 0
  let m ← advance (fun j => p[j]?.map token) line 0
  if m = 0 ∨ m ≥ line then some .bad
  else do
    let c ← p[m]?
    if c ≠ 32 then some .bad
    else do
      let path := m + 1
      let pathend ← advance (fun j => p[j]?.map (· != 32)) line path
      if pathend = path then some .bad
      else do
        let c ← p[path]?
        if c ≠ 47 ∨ pathend ≥ line then some .bad
        else if ¬(← eq p (pathend + 1) (line - pathend - 1) (ascii "HTTP/1.1")) then some .bad
        else
          match ← headersFrom p n n false false (line + 2) with
          | none => some .bad
          | some false => some .bad
          | some true =>
              if ¬(← eq p 0 m (ascii "GET")) then some .method
              else if ← eq p path (pathend - path) (ascii "/") then some .root
              else if ← eq p path (pathend - path) (ascii "/health") then some .health
              else some .notFound

/-- `radio_http_parse`. -/
def radioHttpParse (p : Option (List UInt8)) (n : Nat) : Option HttpResult :=
  if n > radioHttpMax then some .large
  else
    match p with
    | none => some (if n ≠ 0 then .bad else .more)
    | some p => do
        match ← scanFrom p n 0 0 with
        | none => some .bad
        | some stop =>
            if stop = 0 then some (if n = radioHttpMax then .large else .more)
            else if stop ≠ n then some .bad
            else radioHttpRequest p n

-- ============================================================ the first loop

variable {p q : List UInt8}

/-- `p[i]` cannot be in a request. -/
def BadAt (p : List UInt8) (i : Nat) : Prop :=
  if p.getD i 0 = 13 then i + 1 < p.length ∧ p.getD (i + 1) 0 ≠ 10
  else if p.getD i 0 = 10 then i = 0 ∨ p.getD (i - 1) 0 ≠ 13
  else p.getD i 0 < 32 ∨ 126 < p.getD i 0

/-- The end marker ends with `p[i]`. -/
def Marks (p : List UInt8) (i : Nat) : Prop :=
  3 ≤ i ∧ (p.drop (i - 3)).take 4 = [13, 10, 13, 10]

/-- What the first loop finds: no byte that cannot be in a request, and
behind the first end marker `stop`, or 0 without one. -/
structure Scanned (p : List UInt8) (stop : Nat) : Prop where
  clean : ∀ i < p.length, ¬BadAt p i
  marker : stop ≠ 0 → stop ≤ p.length ∧ Marks p (stop - 1)
  first : ∀ i < p.length, Marks p i → stop ≠ 0 ∧ stop ≤ i + 1

instance (p : List UInt8) (i : Nat) : Decidable (BadAt p i) :=
  inferInstanceAs (Decidable (ite _ _ _))

instance (p : List UInt8) (i : Nat) : Decidable (Marks p i) :=
  inferInstanceAs (Decidable (_ ∧ _))

theorem read_lt {i : Nat} (h : i < p.length) : p[i]? = some (p.getD i 0) := by
  rw [List.getD_eq_getElem?_getD, List.getElem?_eq_getElem h]
  rfl

theorem badOctet_eq {i : Nat} (h : i < p.length) :
    badOctet p p.length i = some (decide (BadAt p i)) := by
  unfold badOctet
  rw [read_lt h]
  simp only [Option.bind_eq_bind, Option.bind_some, BadAt]
  split
  · split
    next hnext =>
      rw [read_lt hnext]
      simp [hnext, bne, beq_eq_decide]
    next hnext => simp [hnext]
  split
  · split
    next hzero => simp [hzero]
    next hzero =>
      rw [read_lt (by omega)]
      simp [hzero, bne, beq_eq_decide]
  · simp

theorem markerAt_eq {i : Nat} (h : i < p.length) :
    markerAt p i = some (decide (Marks p i)) := by
  unfold markerAt Marks readAt
  split
  next hlow =>
    rw [if_pos (by omega)]
    simp [hlow, beq_eq_decide]
  next hlow => simp [hlow]

/-- The loop, from `i` on: the bytes before `i` are looked at. -/
theorem scanFrom_eq (n : Nat) : ∀ {i stop : Nat}, p.length - i = n → i ≤ p.length →
    (∀ j < i, ¬BadAt p j) → (stop ≠ 0 → stop ≤ i ∧ Marks p (stop - 1)) →
    (∀ j < i, Marks p j → stop ≠ 0 ∧ stop ≤ j + 1) →
    ((∃ j < p.length, BadAt p j) ∧ scanFrom p p.length i stop = some none) ∨
      ∃ stop', Scanned p stop' ∧ scanFrom p p.length i stop = some (some stop') := by
  induction n with
  | zero =>
      intro i stop hn hi hclean hmarker hfirst
      obtain rfl : i = p.length := by omega
      refine .inr ⟨stop, ⟨hclean, hmarker, hfirst⟩, ?_⟩
      rw [scanFrom, if_neg (Nat.lt_irrefl _)]
  | succ n ih =>
      intro i stop hn hi hclean hmarker hfirst
      have hlt : i < p.length := by omega
      rw [scanFrom, if_pos hlt, badOctet_eq hlt]
      simp only [Option.bind_eq_bind, Option.bind_some]
      by_cases hbad : BadAt p i
      · refine .inl ⟨⟨i, hlt, hbad⟩, ?_⟩
        rw [decide_eq_true hbad, if_pos rfl]
      · rw [decide_eq_false hbad, if_neg Bool.false_ne_true, markerAt_eq hlt, Option.bind_some]
        have hclean' : ∀ j < i + 1, ¬BadAt p j := by
          intro j hj
          rcases Nat.lt_succ_iff_lt_or_eq.mp hj with hj | rfl
          · exact hclean j hj
          · exact hbad
        refine ih (by omega) hlt hclean' ?_ ?_
        · split
          next hmark =>
            intro _
            exact ⟨Nat.le_refl _, of_decide_eq_true hmark.1⟩
          next => exact fun hstop => ⟨Nat.le_succ_of_le (hmarker hstop).1, (hmarker hstop).2⟩
        · intro j hj hmarks
          split
          next hmark =>
            refine ⟨Nat.succ_ne_zero i, ?_⟩
            by_contra hlate
            exact (hfirst j (by omega) hmarks).1 hmark.2
          next hmark =>
            rcases Nat.lt_succ_iff_lt_or_eq.mp hj with hj | rfl
            · exact hfirst j hj hmarks
            · rw [decide_eq_true hmarks] at hmark
              have hstop : stop ≠ 0 := fun hstop => hmark ⟨rfl, hstop⟩
              exact ⟨hstop, Nat.le_succ_of_le (hmarker hstop).1⟩

/-- What the loop returns. -/
theorem scan_cases (p : List UInt8) :
    ((∃ j < p.length, BadAt p j) ∧ scanFrom p p.length 0 0 = some none) ∨
      ∃ stop, Scanned p stop ∧ scanFrom p p.length 0 0 = some (some stop) :=
  scanFrom_eq p.length rfl (Nat.zero_le _) (fun j hj => absurd hj (Nat.not_lt_zero j))
    (fun h => absurd rfl h) fun j hj => absurd hj (Nat.not_lt_zero j)

/-- A buffer that is clean in the whole is clean in its beginning. -/
theorem BadAt.append {i : Nat} (hi : i < p.length) (h : BadAt p i) : BadAt (p ++ q) i := by
  have hread : ∀ j < p.length, (p ++ q).getD j 0 = p.getD j 0 := fun j hj => by
    rw [List.getD_eq_getElem?_getD, List.getD_eq_getElem?_getD, List.getElem?_append_left hj]
  unfold BadAt at h ⊢
  rw [hread i hi]
  split at h
  next hcr =>
    rw [if_pos hcr, hread _ h.1, List.length_append]
    exact ⟨by omega, h.2⟩
  next hcr =>
    rw [if_neg hcr]
    split at h
    next hlf =>
      rw [if_pos hlf, hread (i - 1) (by omega)]
      exact h
    next hlf =>
      rw [if_neg hlf]
      exact h

/-- A marker is where it was. -/
theorem marks_append {i : Nat} (hi : i < p.length) : Marks (p ++ q) i ↔ Marks p i := by
  unfold Marks
  constructor
  · rintro ⟨hlow, h⟩
    rw [List.drop_append_of_le_length (by omega),
      List.take_append_of_le_length (by rw [List.length_drop]; omega)] at h
    exact ⟨hlow, h⟩
  · rintro ⟨hlow, h⟩
    rw [List.drop_append_of_le_length (by omega),
      List.take_append_of_le_length (by rw [List.length_drop]; omega)]
    exact ⟨hlow, h⟩

/-- An end marker that is found is found again. -/
theorem Scanned.append {stop stop' : Nat} (h : Scanned p stop) (hne : stop ≠ 0)
    (h' : Scanned (p ++ q) stop') : stop' = stop := by
  obtain ⟨hle, hmarks⟩ := h.marker hne
  have hlast : stop - 1 < p.length := by omega
  obtain ⟨hne', hle'⟩ := h'.first (stop - 1) (by rw [List.length_append]; omega)
    ((marks_append hlast).mpr hmarks)
  have hmarks' := (h'.marker hne').2
  have hfirst := (h.first (stop' - 1) (by omega) ((marks_append (by omega)).mp hmarks')).2
  omega

/-- And none before the one at the end. -/
theorem Scanned.before (h : Scanned (p ++ q) (p ++ q).length) (hq : q ≠ []) : Scanned p 0 where
  clean i hi hbad := h.clean i (by rw [List.length_append]; omega) (hbad.append hi)
  marker h := absurd rfl h
  first i hi hmarks := by
    have hpos := List.length_pos_iff.mpr hq
    have hlast := (h.first i (by rw [List.length_append]; omega) ((marks_append hi).mpr hmarks)).2
    rw [List.length_append] at hlast
    omega

-- ============================================================== the verdicts

/-- A verdict on lines that are all there. -/
def Final (r : HttpResult) : Prop := r ≠ .more ∧ r ≠ .large

/-- The cases of a buffer. -/
inductive HttpParsed (p : List UInt8) : HttpResult → Prop
  | long (hlong : radioHttpMax < p.length) : HttpParsed p .large
  | octet (hlen : p.length ≤ radioHttpMax) (hbad : ∃ i < p.length, BadAt p i) : HttpParsed p .bad
  | waits (hlen : p.length < radioHttpMax) (hscan : Scanned p 0) : HttpParsed p .more
  | full (hlen : p.length = radioHttpMax) (hscan : Scanned p 0) : HttpParsed p .large
  | behind {stop : Nat} (hlen : p.length ≤ radioHttpMax) (hscan : Scanned p stop)
      (hne : stop ≠ 0) (hstop : stop ≠ p.length) : HttpParsed p .bad
  | request {r : HttpResult} (hlen : p.length ≤ radioHttpMax) (hscan : Scanned p p.length)
      (hne : p.length ≠ 0) (hr : radioHttpRequest p p.length = some r) : HttpParsed p r

theorem Scanned.unique {stop stop' : Nat} (h : Scanned p stop) (h' : Scanned p stop') :
    stop = stop' := by
  rcases Nat.eq_zero_or_pos stop with rfl | hpos
  · by_contra hne
    obtain ⟨hle, hmarks⟩ := h'.marker (Ne.symm hne)
    exact (h.first (stop' - 1) (by omega) hmarks).1 rfl
  · rw [← List.append_nil p] at h'
    exact (h.append (by omega) h').symm

theorem scan_some {stop : Nat} (h : Scanned p stop) :
    scanFrom p p.length 0 0 = some (some stop) := by
  rcases scan_cases p with ⟨⟨i, hi, hbad⟩, -⟩ | ⟨stop', h', heq⟩
  · exact absurd hbad (h.clean i hi)
  · rw [heq, h.unique h']

theorem scan_none (h : ∃ i < p.length, BadAt p i) : scanFrom p p.length 0 0 = some none := by
  rcases scan_cases p with ⟨-, heq⟩ | ⟨stop, hscan, -⟩
  · exact heq
  · obtain ⟨i, hi, hbad⟩ := h
    exact absurd hbad (hscan.clean i hi)

/-- Behind the first loop. -/
theorem parse_scanned {stop : Nat} (hlen : p.length ≤ radioHttpMax) (hscan : Scanned p stop) :
    radioHttpParse (some p) p.length
      = if stop = 0 then some (if p.length = radioHttpMax then .large else .more)
        else if stop ≠ p.length then some .bad
        else radioHttpRequest p p.length := by
  unfold radioHttpParse
  rw [if_neg (Nat.not_lt.mpr hlen)]
  dsimp only
  rw [scan_some hscan]
  rfl

theorem parse_octet (hlen : p.length ≤ radioHttpMax) (hbad : ∃ i < p.length, BadAt p i) :
    radioHttpParse (some p) p.length = some .bad := by
  unfold radioHttpParse
  rw [if_neg (Nat.not_lt.mpr hlen)]
  dsimp only
  rw [scan_none hbad]
  rfl

theorem parse_long (hlong : radioHttpMax < p.length) :
    radioHttpParse (some p) p.length = some .large := by
  unfold radioHttpParse
  rw [if_pos hlong]

/-- The verdict by what the first loop finds. -/
theorem parse_some_iff {r : HttpResult} :
    radioHttpParse (some p) p.length = some r ↔ HttpParsed p r := by
  constructor
  · intro h
    rcases Nat.lt_or_ge radioHttpMax p.length with hlong | hlen
    · rw [parse_long hlong] at h
      cases h
      exact .long hlong
    rcases scan_cases p with ⟨hbad, -⟩ | ⟨stop, hscan, -⟩
    · rw [parse_octet hlen hbad] at h
      cases h
      exact .octet hlen hbad
    rw [parse_scanned hlen hscan] at h
    split at h
    next hzero =>
      subst hzero
      split at h
      next hfull =>
        cases h
        exact .full hfull hscan
      next hfull =>
        cases h
        exact .waits (by omega) hscan
    next hne =>
      split at h
      next hstop =>
        cases h
        exact .behind hlen hscan hne hstop
      next hstop =>
        rw [not_not] at hstop
        subst hstop
        exact .request hlen hscan hne h
  · intro h
    cases h with
    | long hlong => exact parse_long hlong
    | octet hlen hbad => exact parse_octet hlen hbad
    | waits hlen hscan =>
        rw [parse_scanned (Nat.le_of_lt hlen) hscan, if_pos rfl, if_neg (Nat.ne_of_lt hlen)]
    | full hlen hscan =>
        rw [parse_scanned (Nat.le_of_eq hlen) hscan, if_pos rfl, if_pos hlen]
    | behind hlen hscan hne hstop =>
        rw [parse_scanned hlen hscan, if_neg hne, if_pos hstop]
    | request hlen hscan hne hr =>
        rw [parse_scanned hlen hscan, if_neg hne, if_neg (not_not_intro rfl), hr]

/-- A run that gives no other verdict. -/
def EndsFinal (x : Option HttpResult) : Prop := ∀ r, x = some r → Final r

theorem endsFinal_some {r : HttpResult} (h : Final r) : EndsFinal (some r) := fun _ hr =>
  Option.some.inj hr ▸ h

theorem endsFinal_bind {α : Type} {x : Option α} {f : α → Option HttpResult}
    (h : ∀ a, EndsFinal (f a)) : EndsFinal (x >>= f) := by
  intro r hr
  obtain ⟨a, -, ha⟩ := Option.bind_eq_some_iff.mp hr
  exact h a r ha

theorem endsFinal_ite {c : Prop} [Decidable c] {x y : Option HttpResult} (hx : EndsFinal x)
    (hy : EndsFinal y) : EndsFinal (if c then x else y) := by
  split
  · exact hx
  · exact hy

/-- No verdict on the lines asks for more. -/
theorem request_final (p : List UInt8) (n : Nat) : EndsFinal (radioHttpRequest p n) := by
  have hbad : EndsFinal (some .bad) := endsFinal_some (by unfold Final; decide)
  have hmethod : EndsFinal (some .method) := endsFinal_some (by unfold Final; decide)
  have hroot : EndsFinal (some .root) := endsFinal_some (by unfold Final; decide)
  have hhealth : EndsFinal (some .health) := endsFinal_some (by unfold Final; decide)
  have hnot : EndsFinal (some .notFound) := endsFinal_some (by unfold Final; decide)
  unfold radioHttpRequest
  refine endsFinal_bind fun line => endsFinal_bind fun m => endsFinal_ite hbad ?_
  refine endsFinal_bind fun c => endsFinal_ite hbad ?_
  refine endsFinal_bind fun pathend => endsFinal_ite hbad ?_
  refine endsFinal_bind fun c => endsFinal_ite hbad ?_
  refine endsFinal_bind fun version => endsFinal_ite hbad ?_
  refine endsFinal_bind fun host => ?_
  match host with
  | none => exact hbad
  | some false => exact hbad
  | some true =>
      refine endsFinal_bind fun get => endsFinal_ite hmethod ?_
      refine endsFinal_bind fun isRoot => endsFinal_ite hroot ?_
      exact endsFinal_bind fun isHealth => endsFinal_ite hhealth hnot

-- ================================================================ fragments

/-- A request that is accepted. -/
def Accepted (r : HttpResult) : Prop := r ≠ .more ∧ r ≠ .large ∧ r ≠ .bad

/-- A final verdict, and what comes behind it. -/
theorem httpParsed_append (hq : q ≠ []) {r : HttpResult} (hr : r ≠ .more) (hr' : r ≠ .large)
    (h : HttpParsed p r) : HttpParsed (p ++ q) .bad ∨ HttpParsed (p ++ q) .large := by
  by_cases hlong : radioHttpMax < (p ++ q).length
  · exact .inr (.long hlong)
  rw [Nat.not_lt] at hlong
  have hpos := List.length_pos_iff.mpr hq
  have hbehind : ∀ stop, stop ≠ 0 → Scanned p stop → HttpParsed (p ++ q) .bad := by
    intro stop hne hscan
    rcases scan_cases (p ++ q) with ⟨hbad, -⟩ | ⟨stop', hscan', -⟩
    · exact .octet hlong hbad
    · have heq := hscan.append hne hscan'
      have hle := (hscan.marker hne).1
      refine .behind hlong hscan' (by omega) ?_
      rw [List.length_append]
      omega
  cases h with
  | long => exact absurd rfl hr'
  | octet hlen hbad =>
      obtain ⟨i, hi, hbad⟩ := hbad
      exact .inl (.octet hlong ⟨i, by rw [List.length_append]; omega, hbad.append hi⟩)
  | waits => exact absurd rfl hr
  | full => exact absurd rfl hr'
  | behind hlen hscan hne hstop => exact .inl (hbehind _ hne hscan)
  | request hlen hscan hne hreq => exact .inl (hbehind _ hne hscan)

theorem httpParsed_large_append (hq : q ≠ []) (h : HttpParsed p .large) :
    HttpParsed (p ++ q) .large := by
  have hpos := List.length_pos_iff.mpr hq
  have hlength : (p ++ q).length = p.length + q.length := List.length_append
  cases h with
  | long hlong => exact .long (by omega)
  | full hlen hscan => exact .long (by omega)
  | request hlen hscan hne hreq => exact absurd rfl (request_final _ _ _ hreq).2

/-- Before the end of a request there is nothing but more to wait for. -/
theorem httpParsed_before (hq : q ≠ []) {r : HttpResult} (hr : Accepted r)
    (h : HttpParsed (p ++ q) r) : HttpParsed p .more := by
  obtain ⟨hmore, hlarge, hbad⟩ := hr
  cases h with
  | long => exact absurd rfl hlarge
  | octet => exact absurd rfl hbad
  | waits => exact absurd rfl hmore
  | full => exact absurd rfl hlarge
  | behind => exact absurd rfl hbad
  | request hlen hscan hne hreq =>
      have hpos := List.length_pos_iff.mpr hq
      rw [List.length_append] at hlen
      exact .waits (by omega) (hscan.before hq)

/-- A buffer that is parsed again with each fragment, until there is a
verdict. -/
def reparse (buffer : List UInt8) : List (List UInt8) → Option HttpResult
  | [] => some .more
  | fragment :: fragments => do
      let buffer := buffer ++ fragment
      let r ← radioHttpParse (some buffer) buffer.length
      if r = .more then reparse buffer fragments else some r

theorem reparse_accepted {r : HttpResult} (hr : Accepted r) (fragments : List (List UInt8)) :
    ∀ {buffer rest : List UInt8}, rest ≠ [] → fragments.flatten = rest →
      HttpParsed (buffer ++ rest) r → reparse buffer fragments = some r := by
  induction fragments with
  | nil => exact fun hrest hflat => absurd hflat.symm hrest
  | cons fragment fragments ih =>
      intro buffer rest hrest hflat h
      rw [List.flatten_cons] at hflat
      rw [← hflat, ← List.append_assoc] at h
      unfold reparse
      dsimp only
      by_cases hlast : fragments.flatten = []
      · rw [hlast, List.append_nil] at h
        rw [parse_some_iff.mpr h, Option.bind_eq_bind, Option.bind_some, if_neg hr.1]
      · rw [parse_some_iff.mpr (httpParsed_before hlast hr h), Option.bind_eq_bind,
          Option.bind_some, if_pos rfl]
        exact ih hlast rfl h

/-- A buffer that grows. Behind a verdict that is not MORE there is BAD or
LARGE, and behind LARGE there is LARGE; before an accepted request there is
MORE. So the request is accepted with its verdict however it is cut. -/
theorem http_fragments (p : List UInt8) :
    (∀ q r, q ≠ [] → radioHttpParse (some p) p.length = some r → r ≠ .more → r ≠ .large →
      radioHttpParse (some (p ++ q)) (p ++ q).length = some .bad ∨
        radioHttpParse (some (p ++ q)) (p ++ q).length = some .large) ∧
    (∀ q, q ≠ [] → radioHttpParse (some p) p.length = some .large →
      radioHttpParse (some (p ++ q)) (p ++ q).length = some .large) ∧
    (∀ r, radioHttpParse (some p) p.length = some r → Accepted r → ∀ before, before <+: p →
      before ≠ p → radioHttpParse (some before) before.length = some .more) ∧
    ∀ r, radioHttpParse (some p) p.length = some r → Accepted r → ∀ fragments,
      fragments.flatten = p → reparse [] fragments = some r := by
  simp only [parse_some_iff]
  refine ⟨fun q r hq h hmore hlarge => httpParsed_append hq hmore hlarge h,
    fun q hq h => httpParsed_large_append hq h, ?_, ?_⟩
  · rintro r h hr before ⟨q, rfl⟩ hne
    refine httpParsed_before (fun hq => hne ?_) hr h
    rw [hq, List.append_nil]
  · intro r h hr fragments hflat
    refine reparse_accepted hr fragments (fun hp => ?_) hflat h
    subst hp
    obtain ⟨hmore, hlarge, hbad⟩ := hr
    cases h with
    | long => exact hlarge rfl
    | octet => exact hbad rfl
    | waits => exact hmore rfl
    | full => exact hlarge rfl
    | behind => exact hbad rfl
    | request hlen hscan hne hreq => exact hne rfl

end PicoBridge
