/-
The requests that `radio_http_parse` accepts, as a grammar.

# Two steps

A buffer that the first loop lets through is lines (`scanned_lines`); the
index loops over them are functions of the lines (`request_eq`), and these
recognise the grammar line by line (`requestLine_iff`, `headersVerdict_iff`).
-/
import PicoBridge.Radio.Http

namespace PicoBridge

open Lib.Cursor

-- ============================================================== the grammar

def crlf : List UInt8 := [13, 10]

/-- A non-empty token. -/
def IsToken (s : List UInt8) : Prop := s ≠ [] ∧ ∀ c ∈ s, token c = true

structure HttpHeader where
  name : List UInt8
  value : List UInt8

def HttpHeader.line (h : HttpHeader) : List UInt8 := h.name ++ 58 :: h.value

/-- The value without the spaces around it. -/
def trim (value : List UInt8) : List UInt8 :=
  (value.dropWhile (· == 32)).rdropWhile (· == 32)

/-- A header's name, whatever its case. -/
def HttpHeader.isNamed (name : String) (h : HttpHeader) : Bool := h.name.map lower == ascii name

structure HttpRequest where
  method : List UInt8
  path : List UInt8
  headers : List HttpHeader

/-- The bytes of a request. -/
def HttpRequest.bytes (r : HttpRequest) : List UInt8 :=
  (r.method ++ 32 :: (r.path ++ 32 :: ascii "HTTP/1.1")) ++ crlf ++
    r.headers.flatMap (fun h => h.line ++ crlf) ++ crlf

/-- What its parts are made of. -/
structure HttpRequest.WellFormed (r : HttpRequest) : Prop where
  method : IsToken r.method
  path : r.path.head? = some 47
  pathText : ∀ c ∈ r.path, printable c = true ∧ c ≠ 32
  headerName : ∀ h ∈ r.headers, IsToken h.name
  headerText : ∀ h ∈ r.headers, ∀ c ∈ h.value, printable c = true

/-- The trimmed values of the headers of a name. -/
def valuesOf (name : String) (headers : List HttpHeader) : List (List UInt8) :=
  (headers.filter (HttpHeader.isNamed name)).map fun h => trim h.value

/-- What its headers say: one host, which is the device; at most one
length, which is 0; and nothing that changes how the request is read. -/
structure HttpRequest.Allowed (r : HttpRequest) : Prop where
  host : valuesOf "host" r.headers = [ascii "192.168.4.1"] ∨
    valuesOf "host" r.headers = [ascii "192.168.4.1:443"]
  contentLength : valuesOf "content-length" r.headers = [] ∨
    valuesOf "content-length" r.headers = [ascii "0"]
  transferEncoding : valuesOf "transfer-encoding" r.headers = []
  expect : valuesOf "expect" r.headers = []
  upgrade : valuesOf "upgrade" r.headers = []

/-- The verdict on a request. -/
def HttpRequest.verdict (r : HttpRequest) : HttpResult :=
  if r.method ≠ ascii "GET" then .method
  else if r.path = ascii "/" then .root
  else if r.path = ascii "/health" then .health
  else .notFound

-- ================================================================ the lines

variable {p : List UInt8}

/-- The bytes of the lines of a request. -/
def linesBytes (line : List UInt8) (headers : List (List UInt8)) : List UInt8 :=
  line ++ crlf ++ headers.flatMap (· ++ crlf) ++ crlf

/-- Lines that the first loop lets through. -/
structure LinesText (line : List UInt8) (headers : List (List UInt8)) : Prop where
  line : ∀ c ∈ line, printable c = true
  nonempty : ∀ h ∈ headers, h ≠ []
  headers : ∀ h ∈ headers, ∀ c ∈ h, printable c = true

theorem printable_iff (c : UInt8) : printable c = true ↔ 32 ≤ c ∧ c ≤ 126 := by
  unfold printable
  rw [Bool.and_eq_true, decide_eq_true_eq, decide_eq_true_eq]

theorem printable_ne {c : UInt8} (h : printable c = true) : c ≠ 13 ∧ c ≠ 10 := by
  constructor
  · rintro rfl
    cases h
  · rintro rfl
    cases h

/-- A byte that is not a CR does not matter to those behind it. -/
theorem badAt_cons {c : UInt8} (hc : c ≠ 13) (i : Nat) : BadAt (c :: p) (i + 1) ↔ BadAt p i := by
  unfold BadAt
  cases i with
  | zero =>
      have hprev : (c :: p).getD (0 + 1 - 1) 0 = c := rfl
      rw [hprev]
      simp only [Nat.zero_add, List.getD_cons_succ, List.length_cons, Nat.add_lt_add_iff_right,
        one_ne_zero, false_or, true_or, hc, ne_eq, not_false_eq_true]
  | succ i => simp

/-- And none matters to those behind the next. -/
theorem badAt_cons_succ (c : UInt8) (i : Nat) : BadAt (c :: p) (i + 2) ↔ BadAt p (i + 1) := by
  unfold BadAt
  simp

theorem badAt_zero {c : UInt8} (hc : c ≠ 13) : BadAt (c :: p) 0 ↔ ¬printable c = true := by
  have hread : (c :: p).getD 0 0 = c := rfl
  unfold BadAt
  rw [printable_iff, hread, if_neg hc, not_and_or, UInt8.not_le, UInt8.not_le]
  constructor
  · split
    next hlf =>
      rw [hlf]
      exact fun _ => .inl (by decide)
    next => exact id
  · intro h
    split
    · exact .inl rfl
    · exact h

theorem badAt_crlf (i : Nat) : BadAt (13 :: 10 :: p) (i + 2) ↔ BadAt p i :=
  (badAt_cons_succ 13 i).trans (badAt_cons (by decide) i)

theorem marks_cons {c : UInt8} (hc : c ≠ 13) (i : Nat) : Marks (c :: p) (i + 1) ↔ Marks p i := by
  unfold Marks
  rcases Nat.lt_or_ge i 3 with hi | hi
  · constructor
    · rintro ⟨hlow, h⟩
      have hzero : i + 1 - 3 = 0 := by omega
      rw [hzero, List.drop_zero, List.take_succ_cons] at h
      exact absurd (List.cons.inj h).1 hc
    · exact fun h => absurd h.1 (by omega)
  · have hdrop : i + 1 - 3 = i - 3 + 1 := by omega
    rw [hdrop, List.drop_succ_cons]
    exact and_congr_left fun _ => by omega

/-- A marker that does not begin with a line's end is behind it. -/
theorem marks_crlf (hp : ¬crlf <+: p) (i : Nat) : Marks (13 :: 10 :: p) (i + 2) ↔ Marks p i := by
  unfold Marks
  rcases Nat.lt_or_ge i 3 with hi | hi
  · constructor
    · rintro ⟨hlow, h⟩
      rcases (by omega : i = 1 ∨ i = 2) with rfl | rfl
      · refine absurd ⟨p.drop 2, ?_⟩ hp
        have htwo : p.take 2 = [13, 10] := (List.cons.inj (List.cons.inj h).2).2
        have hjoin := List.take_append_drop 2 p
        rwa [htwo] at hjoin
      · cases h
    · exact fun h => absurd h.1 (by omega)
  · have hdrop : i + 2 - 3 = i - 3 + 1 + 1 := by omega
    rw [hdrop, List.drop_succ_cons, List.drop_succ_cons]
    exact and_congr_left fun _ => by omega

/-- A buffer without a byte that cannot be in a request. -/
def Clean (p : List UInt8) : Prop := ∀ i < p.length, ¬BadAt p i

/-- A buffer whose only marker is at its end. -/
def MarksEnd (p : List UInt8) : Prop := ∀ i < p.length, Marks p i → p.length ≤ i + 1

theorem clean_cons {c : UInt8} (hc : c ≠ 13) :
    Clean (c :: p) ↔ printable c = true ∧ Clean p := by
  constructor
  · intro h
    have hzero := h 0 (Nat.succ_pos _)
    rw [badAt_zero hc, not_not] at hzero
    exact ⟨hzero, fun i hi hbad => h (i + 1) (Nat.succ_lt_succ hi) ((badAt_cons hc i).mpr hbad)⟩
  · rintro ⟨hprint, h⟩ i hi hbad
    cases i with
    | zero => exact (badAt_zero hc).mp hbad hprint
    | succ i => exact h i (Nat.lt_of_succ_lt_succ hi) ((badAt_cons hc i).mp hbad)

theorem clean_crlf : Clean (13 :: 10 :: p) ↔ Clean p := by
  constructor
  · intro h i hi hbad
    exact h (i + 2) (Nat.succ_lt_succ (Nat.succ_lt_succ hi)) ((badAt_crlf i).mpr hbad)
  · intro h i hi hbad
    match i with
    | 0 => exact absurd hbad (by simp [BadAt])
    | 1 => exact absurd hbad (by simp [BadAt])
    | i + 2 =>
        exact h i (Nat.lt_of_succ_lt_succ (Nat.lt_of_succ_lt_succ hi)) ((badAt_crlf i).mp hbad)

theorem marksEnd_cons {c : UInt8} (hc : c ≠ 13) : MarksEnd (c :: p) ↔ MarksEnd p := by
  constructor
  · intro h i hi hmarks
    exact Nat.le_of_succ_le_succ (h (i + 1) (Nat.succ_lt_succ hi) ((marks_cons hc i).mpr hmarks))
  · intro h i hi hmarks
    cases i with
    | zero => exact absurd hmarks.1 (by decide)
    | succ i =>
        exact Nat.succ_le_succ (h i (Nat.lt_of_succ_lt_succ hi) ((marks_cons hc i).mp hmarks))

theorem marksEnd_crlf (hp : ¬crlf <+: p) : MarksEnd (13 :: 10 :: p) ↔ MarksEnd p := by
  constructor
  · intro h i hi hmarks
    have := h (i + 2) (Nat.succ_lt_succ (Nat.succ_lt_succ hi)) ((marks_crlf hp i).mpr hmarks)
    simp only [List.length_cons] at this
    omega
  · intro h i hi hmarks
    match i with
    | 0 => exact absurd hmarks.1 (by decide)
    | 1 => exact absurd hmarks.1 (by decide)
    | i + 2 =>
        have := h i (Nat.lt_of_succ_lt_succ (Nat.lt_of_succ_lt_succ hi))
          ((marks_crlf hp i).mp hmarks)
        simp only [List.length_cons]
        omega

/-- A buffer that begins with an empty line is all there. -/
theorem marksEnd_blank : MarksEnd (13 :: 10 :: 13 :: 10 :: p) ↔ p = [] := by
  constructor
  · intro h
    have := h 3 (by simp) ⟨Nat.le_refl 3, rfl⟩
    simp only [List.length_cons] at this
    exact List.length_eq_zero_iff.mp (by omega)
  · rintro rfl i hi hmarks
    exact Nat.succ_le_succ hmarks.1

theorem scanned_iff :
    Scanned p p.length ∧ p ≠ [] ↔ Clean p ∧ MarksEnd p ∧ crlf ++ crlf <:+ p := by
  constructor
  · rintro ⟨h, hne⟩
    obtain ⟨-, hlow, hmarks⟩ := h.marker (List.length_eq_zero_iff.not.mpr hne)
    refine ⟨h.clean, fun i hi hmarks => (h.first i hi hmarks).2, ?_⟩
    rw [List.take_of_length_le (by rw [List.length_drop]; omega)] at hmarks
    show [13, 10, 13, 10] <:+ p
    rw [← hmarks]
    exact List.drop_suffix _ p
  · rintro ⟨hclean, hend, before, rfl⟩
    have hlength : (before ++ (crlf ++ crlf)).length = before.length + 4 := by
      rw [List.length_append]
      rfl
    have hne : before ++ (crlf ++ crlf) ≠ [] := by
      intro h
      rw [h] at hlength
      cases hlength
    refine ⟨⟨hclean, fun _ => ⟨Nat.le_refl _, ?_⟩, fun i hi hmarks => ⟨?_, hend i hi hmarks⟩⟩, hne⟩
    · have hstart : (before ++ (crlf ++ crlf)).length - 1 - 3 = before.length := by omega
      refine ⟨by omega, ?_⟩
      rw [hstart, List.drop_left]
      rfl
    · omega

/-- What the first loop lets through is lines. -/
theorem scanned_lines (n : Nat) : ∀ {p : List UInt8}, p.length = n → Clean p → MarksEnd p →
    crlf ++ crlf <:+ p → ∃ line headers, LinesText line headers ∧ p = linesBytes line headers := by
  induction n using Nat.strongRecOn with
  | _ n ih =>
      intro p hn hclean hend hsuffix
      match p with
      | [] => exact absurd hsuffix.length_le (by decide)
      | c :: p =>
          by_cases hc : c = 13
          · subst hc
            match p with
            | [] => exact absurd hsuffix.length_le (by decide)
            | d :: rest =>
                -- the end of an empty line
                obtain rfl : d = 10 := by
                  by_contra hd
                  refine hclean 0 (Nat.succ_pos _) ?_
                  unfold BadAt
                  rw [if_pos (show (13 :: d :: rest : List UInt8).getD 0 0 = 13 from rfl)]
                  exact ⟨by simp, hd⟩
                by_cases hblank : crlf <+: rest
                · obtain ⟨tail, rfl⟩ := hblank
                  obtain rfl : tail = [] := marksEnd_blank.mp hend
                  exact ⟨[], [], ⟨by simp, by simp, by simp⟩, rfl⟩
                · have hsuffix : crlf ++ crlf <:+ rest := by
                    rcases List.suffix_cons_iff.mp hsuffix with heq | h
                    · refine absurd ⟨[], ?_⟩ hblank
                      exact (List.cons.inj (List.cons.inj heq).2).2
                    · rcases List.suffix_cons_iff.mp h with heq | h
                      · cases heq
                      · exact h
                  obtain ⟨line, headers, htext, rfl⟩ := ih rest.length
                    (by rw [← hn, List.length_cons, List.length_cons]; omega) rfl
                    (clean_crlf.mp hclean) ((marksEnd_crlf hblank).mp hend) hsuffix
                  refine ⟨[], line :: headers, ⟨by simp, ?_, ?_⟩, ?_⟩
                  · refine List.forall_mem_cons.mpr ⟨fun hline => hblank ?_, htext.nonempty⟩
                    subst hline
                    exact ⟨_, rfl⟩
                  · exact List.forall_mem_cons.mpr ⟨htext.line, htext.headers⟩
                  · unfold linesBytes
                    rw [List.flatMap_cons, List.nil_append, List.append_assoc crlf]
                    rfl
          · -- a byte of the line
            obtain ⟨hprint, hclean⟩ := (clean_cons hc).mp hclean
            have hsuffix : crlf ++ crlf <:+ p := by
              rcases List.suffix_cons_iff.mp hsuffix with heq | h
              · exact absurd (List.cons.inj heq).1.symm hc
              · exact h
            obtain ⟨line, headers, htext, rfl⟩ :=
              ih p.length (by rw [← hn]; exact Nat.lt_succ_self _) rfl hclean
                ((marksEnd_cons hc).mp hend) hsuffix
            exact ⟨c :: line, headers,
              ⟨List.forall_mem_cons.mpr ⟨hprint, htext.line⟩, htext.nonempty, htext.headers⟩, rfl⟩

theorem clean_line {l : List UInt8} (hl : ∀ c ∈ l, printable c = true) :
    Clean (l ++ p) ↔ Clean p := by
  induction l with
  | nil => exact Iff.rfl
  | cons c l ih =>
      obtain ⟨hc, hl⟩ := List.forall_mem_cons.mp hl
      rw [List.cons_append, clean_cons (printable_ne hc).1, ih hl]
      exact and_iff_right hc

theorem marksEnd_line {l : List UInt8} (hl : ∀ c ∈ l, printable c = true) :
    MarksEnd (l ++ p) ↔ MarksEnd p := by
  induction l with
  | nil => exact Iff.rfl
  | cons c l ih =>
      obtain ⟨hc, hl⟩ := List.forall_mem_cons.mp hl
      rw [List.cons_append, marksEnd_cons (printable_ne hc).1, ih hl]

/-- The headers, behind the end of a line. -/
theorem headers_scanned {headers : List (List UInt8)} :
    (∀ h ∈ headers, h ≠ []) → (∀ h ∈ headers, ∀ c ∈ h, printable c = true) →
    Clean (headers.flatMap (· ++ crlf) ++ crlf) ∧
      MarksEnd (13 :: 10 :: (headers.flatMap (· ++ crlf) ++ crlf)) ∧
      crlf ++ crlf <:+ 13 :: 10 :: (headers.flatMap (· ++ crlf) ++ crlf) := by
  induction headers with
  | nil =>
      intro _ _
      refine ⟨clean_crlf.mpr fun i hi => absurd hi (Nat.not_lt_zero i), marksEnd_blank.mpr rfl, ?_⟩
      exact List.suffix_refl _
  | cons h headers ih =>
      intro hne htext
      obtain ⟨hne, hnes⟩ := List.forall_mem_cons.mp hne
      obtain ⟨htext, htexts⟩ := List.forall_mem_cons.mp htext
      obtain ⟨hclean, hend, hsuffix⟩ := ih hnes htexts
      have hjoin : (h :: headers).flatMap (· ++ crlf) ++ crlf
          = h ++ 13 :: 10 :: (headers.flatMap (· ++ crlf) ++ crlf) := by
        rw [List.flatMap_cons, List.append_assoc, List.append_assoc]
        rfl
      rw [hjoin]
      refine ⟨?_, ?_, ?_⟩
      · rw [clean_line htext, clean_crlf]
        exact hclean
      · rw [marksEnd_crlf, marksEnd_line htext]
        · exact hend
        · cases h with
          | nil => exact absurd rfl hne
          | cons c h =>
              rintro ⟨tail, htail⟩
              exact (printable_ne (htext c List.mem_cons_self)).1 (List.cons.inj htail).1.symm
      · exact hsuffix.trans ((List.suffix_append h _).trans (List.suffix_append [13, 10] _))

/-- And lines are let through. -/
theorem lines_scanned {line : List UInt8} {headers : List (List UInt8)}
    (h : LinesText line headers) :
    Clean (linesBytes line headers) ∧ MarksEnd (linesBytes line headers) ∧
      crlf ++ crlf <:+ linesBytes line headers := by
  obtain ⟨hclean, hend, hsuffix⟩ := headers_scanned h.nonempty h.headers
  have hjoin : linesBytes line headers
      = line ++ 13 :: 10 :: (headers.flatMap (· ++ crlf) ++ crlf) := by
    unfold linesBytes
    rw [List.append_assoc, List.append_assoc]
    rfl
  rw [hjoin, clean_line h.line, marksEnd_line h.line, clean_crlf]
  exact ⟨hclean, hend, hsuffix.trans (List.suffix_append line _)⟩

-- ===================================================== the lines, one by one

/-- The path of a request line, from what follows its method. -/
def requestPath : List UInt8 → Option (List UInt8)
  | [] => none
  | c :: rest =>
      let path := rest.takeWhile (· != 32)
      if c = 32 ∧ path.head? = some 47 ∧ rest.drop path.length = 32 :: ascii "HTTP/1.1" then
        some path
      else none

/-- The method and the path of a request line. -/
def requestLine (l : List UInt8) : Option (List UInt8 × List UInt8) :=
  let method := l.takeWhile token
  if method = [] then none
  else (requestPath (l.drop method.length)).map fun path => (method, path)

/-- A header, by its name and what follows it. -/
def headerValue (name : List UInt8) : List UInt8 → Option HttpHeader
  | [] => none
  | c :: value => if c = 58 then some ⟨name, value⟩ else none

/-- The name and the value of a header. -/
def headerParts (l : List UInt8) : Option HttpHeader :=
  let name := l.takeWhile token
  if name = [] then none else headerValue name (l.drop name.length)

/-- The loop over the headers, on the headers. -/
def headersVerdict : Bool → Bool → List (List UInt8) → Option Bool
  | host, _, [] => some host
  | host, cl, l :: ls =>
      match headerParts l with
      | none => none
      | some h =>
          if h.isNamed "host" then
            if host then none
            else if trim h.value = ascii "192.168.4.1" ∨ trim h.value = ascii "192.168.4.1:443" then
              headersVerdict true cl ls
            else none
          else if h.isNamed "content-length" then
            if cl then none
            else if trim h.value = ascii "0" then headersVerdict host true ls
            else none
          else if h.isNamed "transfer-encoding" ∨ h.isNamed "expect" ∨ h.isNamed "upgrade" then none
          else headersVerdict host cl ls

theorem eq_at {t s : List UInt8} {o : Nat} (h : At p o t) (hs : s ≠ []) :
    eq p o t.length s = some (t == s) := by
  unfold eq
  split
  next hlength =>
    have hne : ¬t = s := fun h => hlength (by rw [h])
    rw [beq_eq_decide, decide_eq_false hne]
  next hlength =>
    have ht : t ≠ [] := fun ht => hs (List.length_eq_zero_iff.mp (by
      rw [ht] at hlength
      exact (not_not.mp hlength).symm))
    unfold readAt
    rw [if_pos (h.le ht), h.take]
    rfl

theorem ieqFrom_at (s : List UInt8) : ∀ {t : List UInt8} {o : Nat}, At p o t →
    t.length = s.length → ieqFrom p o s = some (t.map lower == s) := by
  induction s with
  | nil =>
      intro t o _ hlength
      rw [List.length_eq_zero_iff.mp hlength]
      rfl
  | cons c s ih =>
      intro t o h hlength
      match t with
      | [] => cases hlength
      | b :: t =>
          obtain ⟨hread, hrest⟩ := at_cons h
          have hs := ih hrest (Nat.succ.inj hlength)
          rw [ieqFrom, hread, Option.bind_eq_bind, Option.bind_some, List.map_cons,
            List.cons_beq_cons]
          by_cases hb : lower b = c
          · rw [if_neg (not_not_intro hb), hs, hb, beq_self_eq_true, Bool.true_and]
          · rw [if_pos hb, beq_eq_decide, decide_eq_false hb, Bool.false_and]

theorem ieq_at {t : List UInt8} {o : Nat} (h : At p o t) (s : List UInt8) :
    ieq p o t.length s = some (t.map lower == s) := by
  unfold ieq
  split
  next hlength =>
    have hne : ¬t.map lower = s := fun h => hlength (by rw [← h, List.length_map])
    rw [beq_eq_decide, decide_eq_false hne]
  next hlength => exact ieqFrom_at s h (not_not.mp hlength)

/-- The value of a header, between the spaces around it. -/
theorem trim_at {value : List UInt8} {i : Nat} (h : At p i value) :
    ∃ start, advance (fun j => p[j]?.map (· == 32)) (i + value.length) i = some start ∧
      retreat (fun j => p[j]?.map (· == 32)) start (i + value.length)
        = some (start + (trim value).length) ∧ At p start (trim value) := by
  have hsplit := List.takeWhile_append_dropWhile (p := (· == (32 : UInt8))) (l := value)
  have hlength : value.length = (value.takeWhile (· == 32)).length
      + (value.dropWhile (· == 32)).length := by
    rw [← List.length_append, hsplit]
  refine ⟨_, advance_takeWhile _ value h, ?_, ?_⟩
  · rw [← hsplit] at h
    have hback := retreat_rdropWhile (· == 32) _ (at_append h).2
    rw [hlength, ← Nat.add_assoc]
    exact hback
  · rw [← hsplit] at h
    exact (at_append h).2.mono (List.rdropWhile_prefix _ _)

/-- A line splits behind its leading token. -/
theorem token_split (l : List UInt8) :
    ∃ name rest, l = name ++ rest ∧ l.takeWhile token = name ∧ l.drop name.length = rest := by
  refine ⟨l.takeWhile token, l.dropWhile token, List.takeWhile_append_dropWhile.symm, rfl, ?_⟩
  have hdrop : (l.takeWhile token ++ l.dropWhile token).drop (l.takeWhile token).length
      = l.dropWhile token := List.drop_left
  rwa [List.takeWhile_append_dropWhile] at hdrop

/-- One turn of the loop over the headers: its line, and what it makes of
the others behind it. -/
theorem headersFrom_turn {l rest : List UInt8} {ls : List (List UInt8)} {fuel pos : Nat}
    (host cl : Bool) (hl : l ≠ []) (hprint : ∀ c ∈ l, printable c = true)
    (hat : At p pos ((l ++ [13]) ++ rest)) (hlength : pos + l.length + 2 < p.length)
    (hnext : ∀ host cl, headersFrom p p.length fuel host cl (pos + l.length + 2)
      = some (headersVerdict host cl ls)) :
    headersFrom p p.length (fuel + 1) host cl pos = some (headersVerdict host cl (l :: ls)) := by
  have hpos := List.length_pos_iff.mpr hl
  obtain ⟨hline, -⟩ := at_append hat
  have hstop : advance (fun j => p[j]?.map (· != 13)) (p.length - 1) pos
      = some (pos + l.length) := by
    refine advance_over l (fun c hc => ?_) rfl hline (by omega)
    rw [bne_iff_ne]
    exact (printable_ne (hprint c hc)).1
  have hl' := (at_append hline).1
  have hcolon := advance_takeWhile token l hl'
  rw [headersFrom, if_pos (by omega), hstop, Option.bind_eq_bind, Option.bind_some,
    if_neg (by omega), hcolon, Option.bind_some, headersVerdict]
  obtain ⟨name, rest, hsplit, hname, hdrop⟩ := token_split l
  have hparts : headerParts l = if name = [] then none else headerValue name rest := by
    simp only [headerParts, hname, hdrop]
  rw [hname, hparts]
  by_cases hnil : name = []
  · rw [if_pos (.inl (by rw [hnil]; rfl)), if_pos hnil]
  have hnamed := List.length_pos_iff.mpr hnil
  rw [if_neg hnil]
  match rest with
  | [] =>
      rw [List.append_nil] at hsplit
      rw [if_pos (.inr (by rw [hsplit]))]
      rfl
  | c :: value =>
      have hlen : l.length = name.length + (value.length + 1) := by
        rw [hsplit, List.length_append, List.length_cons]
      rw [hsplit] at hl'
      obtain ⟨hatName, hatColon⟩ := at_append hl'
      obtain ⟨hread, hatValue⟩ := at_cons hatColon
      rw [if_neg (by omega), hread, Option.bind_eq_bind, Option.bind_some, headerValue]
      by_cases hc : c = 58
      · obtain ⟨start, hstart, hback, hatTrim⟩ := trim_at hatValue
        have hvalue : pos + l.length = pos + name.length + 1 + value.length := by omega
        rw [if_neg (not_not_intro hc), if_pos hc, hvalue, hstart, Option.bind_some, hback,
          Option.bind_some, Nat.add_sub_cancel_left, Nat.add_sub_cancel_left]
        rw [hvalue] at hnext
        simp only [ieq_at hatName, eq_at hatTrim (show ascii "192.168.4.1" ≠ [] by decide),
          eq_at hatTrim (show ascii "192.168.4.1:443" ≠ [] by decide),
          eq_at hatTrim (show ascii "0" ≠ [] by decide), Option.bind_eq_bind, Option.bind_some,
          hnext, HttpHeader.isNamed, beq_iff_eq, ite_or,
          apply_ite (some : Option Bool → Option (Option Bool))]
      · rw [if_pos hc, if_neg hc]

/-- The loop over the headers, from where they begin. -/
theorem headersFrom_eq (ls : List (List UInt8)) : ∀ {fuel pos : Nat} {host cl : Bool},
    (∀ l ∈ ls, l ≠ []) → (∀ l ∈ ls, ∀ c ∈ l, printable c = true) →
    At p pos (ls.flatMap (· ++ crlf) ++ crlf) →
    pos + (ls.flatMap (· ++ crlf) ++ crlf).length = p.length → ls.length < fuel →
    headersFrom p p.length fuel host cl pos = some (headersVerdict host cl ls) := by
  induction ls with
  | nil =>
      intro fuel pos host cl _ _ _ hlength hfuel
      obtain ⟨fuel, rfl⟩ := Nat.exists_eq_succ_of_ne_zero (Nat.ne_of_gt hfuel)
      have hend : pos + 2 = p.length := hlength
      rw [headersFrom, if_neg (by omega)]
      rfl
  | cons l ls ih =>
      intro fuel pos host cl hne htext hat hlength hfuel
      obtain ⟨fuel, rfl⟩ := Nat.exists_eq_succ_of_ne_zero (Nat.ne_of_gt (Nat.zero_lt_of_lt hfuel))
      obtain ⟨hl, hne⟩ := List.forall_mem_cons.mp hne
      obtain ⟨hprint, htext⟩ := List.forall_mem_cons.mp htext
      have hjoin : (l :: ls).flatMap (· ++ crlf) ++ crlf
          = (l ++ [13]) ++ ([10] ++ (ls.flatMap (· ++ crlf) ++ crlf)) := by
        rw [List.flatMap_cons, List.append_assoc, List.append_assoc, List.append_assoc]
        rfl
      have hcrlf : crlf.length = 2 := rfl
      rw [hjoin] at hat hlength
      have hrest := (at_append (at_append hat).2).2
      simp only [List.length_append, List.length_singleton] at hlength hrest
      refine headersFrom_turn host cl hl hprint hat (by omega) fun host cl => ?_
      refine ih hne htext hrest ?_ (Nat.lt_of_succ_lt_succ hfuel)
      rw [List.length_append]
      omega

/-- The verdict on the lines. -/
def linesVerdict (line : List UInt8) (headers : List (List UInt8)) : HttpResult :=
  match requestLine line with
  | none => .bad
  | some (method, path) =>
      match headersVerdict false false headers with
      | some true => HttpRequest.verdict ⟨method, path, []⟩
      | _ => .bad

/-- Every line is two bytes or more. -/
theorem length_le_lines (headers : List (List UInt8)) :
    headers.length ≤ (headers.flatMap (· ++ crlf) ++ crlf).length := by
  induction headers with
  | nil => exact Nat.zero_le _
  | cons h headers ih =>
      rw [List.flatMap_cons, List.append_assoc, List.length_append, List.length_append,
        List.length_cons]
      have hcrlf : crlf.length = 2 := rfl
      omega

/-- Where the request line ends. -/
theorem lineEnd_at {line rest : List UInt8} (hline : ∀ c ∈ line, printable c = true)
    (hp : p = line ++ 13 :: 10 :: rest) :
    advance (noLineEnd p) (p.length - 1) 0 = some line.length := by
  have hlength : p.length = line.length + (rest.length + 2) := by
    rw [hp, List.length_append, List.length_cons, List.length_cons]
  refine advance_to (by omega) (fun _ => ?_) (Nat.zero_le _) fun j _ hj => ?_
  · unfold noLineEnd
    have hcr : p[line.length]? = some 13 := by
      rw [hp, List.getElem?_append_right (Nat.le_refl _), Nat.sub_self]
      rfl
    have hlf : p[line.length + 1]? = some 10 := by
      rw [hp, List.getElem?_append_right (Nat.le_add_right _ 1), Nat.add_sub_cancel_left]
      rfl
    rw [hcr, hlf]
    rfl
  · unfold noLineEnd
    rw [hp, List.getElem?_append_left hj, List.getElem?_eq_getElem hj, Option.bind_eq_bind,
      Option.bind_some, if_neg (printable_ne (hline _ (List.getElem_mem hj))).1]

/-- And what follows its method behind the path. -/
theorem space_split (l : List UInt8) :
    ∃ path rest, l = path ++ rest ∧ l.takeWhile (· != 32) = path ∧ l.drop path.length = rest ∧
      (rest = [] ∨ ∃ version, rest = 32 :: version) := by
  refine ⟨l.takeWhile (· != 32), l.dropWhile (· != 32), List.takeWhile_append_dropWhile.symm, rfl,
    ?_, ?_⟩
  · have hdrop : (l.takeWhile (· != 32) ++ l.dropWhile (· != 32)).drop
        (l.takeWhile (· != 32)).length = l.dropWhile (· != 32) := List.drop_left
    rwa [List.takeWhile_append_dropWhile] at hdrop
  · cases hrest : l.dropWhile (· != 32) with
    | nil => exact .inl rfl
    | cons c version =>
        have hhead := List.head?_dropWhile_not (· != (32 : UInt8)) l
        rw [hrest] at hhead
        exact .inr ⟨version, by rw [bne_eq_false_iff_eq.mp hhead]⟩

/-- What follows the first loop, on the lines. -/
theorem request_eq {line : List UInt8} {headers : List (List UInt8)}
    (h : LinesText line headers) (hp : p = linesBytes line headers) :
    radioHttpRequest p p.length = some (linesVerdict line headers) := by
  have hjoin : p = line ++ (13 :: 10 :: (headers.flatMap (· ++ crlf) ++ crlf)) := by
    rw [hp, linesBytes, List.append_assoc, List.append_assoc]
    rfl
  have hat : At p 0 (line ++ ([13, 10] ++ (headers.flatMap (· ++ crlf) ++ crlf))) := by
    rw [hjoin]
    exact List.prefix_refl _
  obtain ⟨hline, hrest⟩ := at_append hat
  rw [Nat.zero_add] at hrest
  have hheaders := (at_append hrest).2
  have hlength : p.length = line.length + 2 + (headers.flatMap (· ++ crlf) ++ crlf).length := by
    rw [hjoin, List.length_append, List.length_cons, List.length_cons]
    omega
  have hfits := length_le_lines headers
  have hloop : headersFrom p p.length p.length false false (line.length + 2)
      = some (headersVerdict false false headers) :=
    headersFrom_eq headers h.nonempty h.headers hheaders hlength.symm (by omega)
  have hmethod := advance_takeWhile token line hline
  rw [Nat.zero_add, Nat.zero_add] at hmethod
  unfold radioHttpRequest
  rw [lineEnd_at h.line hjoin, Option.bind_eq_bind, Option.bind_some, hmethod, Option.bind_some]
  obtain ⟨method, rest, hsplit, hname, hdrop⟩ := token_split line
  unfold linesVerdict requestLine
  simp only [hname, hdrop]
  by_cases hnil : method = []
  · rw [if_pos (.inl (by rw [hnil]; rfl)), if_pos hnil]
  have hpos := List.length_pos_iff.mpr hnil
  rw [if_neg hnil]
  cases rest with
  | nil =>
      rw [List.append_nil] at hsplit
      rw [if_pos (.inr (by rw [hsplit]))]
      rfl
  | cons c rest =>
      have hlen : line.length = method.length + (rest.length + 1) := by
        rw [hsplit, List.length_append, List.length_cons]
      rw [hsplit] at hline
      obtain ⟨hatMethod, hatSpace⟩ := at_append hline
      rw [Nat.zero_add] at hatSpace
      obtain ⟨hread, hatRest⟩ := at_cons hatSpace
      rw [if_neg (by omega), hread, Option.bind_eq_bind, Option.bind_some, requestPath]
      by_cases hc : c = 32
      swap
      · rw [if_pos hc, if_neg fun h => hc h.1]
        rfl
      obtain ⟨path, tail, rfl, hpath, hbehind, hhead⟩ := space_split rest
      have hend := advance_takeWhile (· != 32) (path ++ tail) hatRest
      obtain ⟨hatPath, hatTail⟩ := at_append hatRest
      have hstop : line.length = method.length + 1 + (path ++ tail).length := by omega
      rw [hpath] at hend
      rw [if_neg (not_not_intro hc), hstop, hend, Option.bind_some, hpath, hbehind]
      cases path with
      | nil =>
          rw [List.length_nil, Nat.add_zero, if_pos rfl, if_neg (by simp)]
          rfl
      | cons d path =>
          obtain ⟨hread, -⟩ := at_cons hatPath
          rw [if_neg (by simp), hread, Option.bind_some]
          rcases hhead with rfl | ⟨version, rfl⟩
          · rw [if_pos (.inr (by rw [List.append_nil])), if_neg (by simp)]
            rfl
          have hlast : method.length + 1 + (d :: path ++ 32 :: version).length
              = method.length + 1 + (d :: path).length + 1 + version.length := by
            rw [List.length_append, List.length_cons (a := 32)]
            omega
          have hatVersion := (at_cons hatTail).2
          rw [hstop] at hloop
          rw [hlast] at hloop ⊢
          have hafter : method.length + 1 + (d :: path).length + 1 + version.length
              - (method.length + 1 + (d :: path).length) - 1 = version.length := by omega
          rw [hafter, Nat.add_sub_cancel_left, eq_at hatVersion (by decide), hloop]
          by_cases hd : d = 47
          swap
          · rw [if_pos (.inl hd), if_neg fun h => hd (Option.some.inj h.2.1)]
            rfl
          rw [if_neg (by rw [not_or]; exact ⟨not_not_intro hd, by omega⟩), Option.bind_eq_bind,
            Option.bind_some]
          by_cases hv : version = ascii "HTTP/1.1"
          swap
          · rw [if_pos (by simp [hv]), if_neg fun h => hv (List.cons.inj h.2.2).2]
            rfl
          rw [if_neg (by simp [hv]), if_pos ⟨hc, by rw [hd]; rfl, by rw [hv]⟩]
          simp only [eq_at hatMethod (show ascii "GET" ≠ [] by decide),
            eq_at hatPath (show ascii "/" ≠ [] by decide),
            eq_at hatPath (show ascii "/health" ≠ [] by decide), Option.bind_eq_bind,
            Option.bind_some, Option.map_some, beq_iff_eq]
          rcases headersVerdict false false headers with _ | host
          · rfl
          cases host with
          | false => rfl
          | true =>
              simp only [HttpRequest.verdict, ne_eq,
                apply_ite (some : HttpResult → Option HttpResult)]

-- =============================================================== the grammar

/-- Bytes up to one that does not pass. -/
theorem takeWhile_before {q : UInt8 → Bool} {s rest : List UInt8} {c : UInt8}
    (hs : ∀ b ∈ s, q b = true) (hc : q c = false) : (s ++ c :: rest).takeWhile q = s := by
  rw [List.takeWhile_append_of_pos hs, List.takeWhile_cons, hc]
  simp

/-- A request line is a method, a path and the version. -/
theorem requestLine_iff {l method path : List UInt8} :
    requestLine l = some (method, path) ↔
      l = method ++ 32 :: (path ++ 32 :: ascii "HTTP/1.1") ∧ IsToken method ∧
        path.head? = some 47 ∧ ∀ c ∈ path, c ≠ 32 := by
  constructor
  · obtain ⟨name, rest, hsplit, hname, hdrop⟩ := token_split l
    unfold requestLine
    simp only [hname, hdrop]
    intro h
    split at h
    · cases h
    next hnil =>
      obtain ⟨path', hpath, heq⟩ := Option.map_eq_some_iff.mp h
      cases heq
      match rest with
      | [] => cases hpath
      | c :: rest =>
          unfold requestPath at hpath
          dsimp only at hpath
          split at hpath
          next hcond =>
            obtain ⟨rfl, hslash, hversion⟩ := hcond
            obtain ⟨path'', tail, rfl, htake, hbehind, -⟩ := space_split rest
            rw [htake] at hpath hslash hversion
            cases hpath
            rw [hbehind] at hversion
            subst hversion
            refine ⟨hsplit, ⟨hnil, ?_⟩, hslash, ?_⟩
            · rw [← hname]
              exact fun c hc => List.mem_takeWhile_imp hc
            · rw [← htake]
              exact fun c hc => bne_iff_ne.mp (List.mem_takeWhile_imp (p := (· != 32)) hc)
          · cases hpath
  · rintro ⟨rfl, ⟨hnil, htoken⟩, hslash, hpath⟩
    have hmethod : (method ++ 32 :: (path ++ 32 :: ascii "HTTP/1.1")).takeWhile token = method :=
      takeWhile_before htoken rfl
    have htake : (path ++ 32 :: ascii "HTTP/1.1").takeWhile (· != 32) = path :=
      takeWhile_before (fun c hc => bne_iff_ne.mpr (hpath c hc)) rfl
    unfold requestLine
    rw [hmethod]
    dsimp only
    rw [if_neg hnil, List.drop_left, requestPath, htake, List.drop_left, if_pos ⟨rfl, hslash, rfl⟩]
    rfl

/-- A header is a token and a value. -/
theorem headerParts_iff {l : List UInt8} {h : HttpHeader} :
    headerParts l = some h ↔ l = h.line ∧ IsToken h.name := by
  constructor
  · obtain ⟨name, rest, hsplit, hname, hdrop⟩ := token_split l
    unfold headerParts
    simp only [hname, hdrop]
    intro heq
    split at heq
    · cases heq
    next hnil =>
      match rest with
      | [] => cases heq
      | c :: value =>
          dsimp only [headerValue] at heq
          split at heq
          next hc =>
            cases heq
            refine ⟨by rw [hsplit, hc]; rfl, hnil, ?_⟩
            rw [← hname]
            exact fun c hc => List.mem_takeWhile_imp hc
          · cases heq
  · rintro ⟨rfl, hnil, htoken⟩
    have hname : h.line.takeWhile token = h.name := takeWhile_before htoken rfl
    unfold headerParts
    rw [hname]
    dsimp only
    rw [if_neg hnil, HttpHeader.line, List.drop_left, headerValue, if_pos rfl]

/-- What the headers may still say, behind a host and behind a length. -/
def HeadersAllowed (host cl : Bool) (headers : List HttpHeader) : Prop :=
  (if host then valuesOf "host" headers = []
    else valuesOf "host" headers = [ascii "192.168.4.1"] ∨
      valuesOf "host" headers = [ascii "192.168.4.1:443"]) ∧
  (if cl then valuesOf "content-length" headers = []
    else valuesOf "content-length" headers = [] ∨
      valuesOf "content-length" headers = [ascii "0"]) ∧
  valuesOf "transfer-encoding" headers = [] ∧ valuesOf "expect" headers = [] ∧
  valuesOf "upgrade" headers = []

theorem HttpRequest.allowed_iff (r : HttpRequest) :
    r.Allowed ↔ HeadersAllowed false false r.headers :=
  ⟨fun ⟨host, cl, te, expect, upgrade⟩ => ⟨host, cl, te, expect, upgrade⟩,
    fun ⟨host, cl, te, expect, upgrade⟩ => ⟨host, cl, te, expect, upgrade⟩⟩

theorem valuesOf_cons (name : String) (h : HttpHeader) (headers : List HttpHeader) :
    valuesOf name (h :: headers)
      = if h.isNamed name then trim h.value :: valuesOf name headers
        else valuesOf name headers := by
  unfold valuesOf
  rw [List.filter_cons]
  split <;> rfl

/-- A header has one name. -/
theorem isNamed_other {h : HttpHeader} {name : String} (hname : h.isNamed name = true)
    (other : String) (hne : ascii name ≠ ascii other) : h.isNamed other = false := by
  unfold HttpHeader.isNamed at hname ⊢
  rw [beq_iff_eq.mp hname]
  exact beq_false_of_ne hne

/-- A host: the first, and one of the two. -/
theorem allowed_host {host cl : Bool} {h : HttpHeader} {headers : List HttpHeader}
    (hname : h.isNamed "host" = true) :
    HeadersAllowed host cl (h :: headers) ↔
      host = false ∧
        (trim h.value = ascii "192.168.4.1" ∨ trim h.value = ascii "192.168.4.1:443") ∧
        HeadersAllowed true cl headers := by
  have hother := isNamed_other hname
  unfold HeadersAllowed
  simp only [valuesOf_cons, hname,
    hother _ (show ascii "host" ≠ ascii "content-length" by decide),
    hother _ (show ascii "host" ≠ ascii "transfer-encoding" by decide),
    hother _ (show ascii "host" ≠ ascii "expect" by decide),
    hother _ (show ascii "host" ≠ ascii "upgrade" by decide), if_true, Bool.false_eq_true,
    if_false]
  cases host with
  | true => simp
  | false =>
      simp only [Bool.false_eq_true, if_false, List.cons.injEq, ← or_and_right, and_assoc, true_and]

/-- A length: the first, and 0. -/
theorem allowed_length {host cl : Bool} {h : HttpHeader} {headers : List HttpHeader}
    (hname : h.isNamed "content-length" = true) :
    HeadersAllowed host cl (h :: headers) ↔
      cl = false ∧ trim h.value = ascii "0" ∧ HeadersAllowed host true headers := by
  have hother := isNamed_other hname
  unfold HeadersAllowed
  simp only [valuesOf_cons, hname,
    hother _ (show ascii "content-length" ≠ ascii "host" by decide),
    hother _ (show ascii "content-length" ≠ ascii "transfer-encoding" by decide),
    hother _ (show ascii "content-length" ≠ ascii "expect" by decide),
    hother _ (show ascii "content-length" ≠ ascii "upgrade" by decide), if_true,
    Bool.false_eq_true, if_false]
  cases cl with
  | true => simp
  | false =>
      simp only [Bool.false_eq_true, if_false, List.cons.injEq, reduceCtorEq, false_or, true_and,
        and_assoc]
      exact and_left_comm

/-- Any other: none of the three that are refused. -/
theorem allowed_other {host cl : Bool} {h : HttpHeader} {headers : List HttpHeader}
    (hhost : ¬h.isNamed "host" = true) (hcl : ¬h.isNamed "content-length" = true) :
    HeadersAllowed host cl (h :: headers) ↔
      ¬(h.isNamed "transfer-encoding" = true ∨ h.isNamed "expect" = true ∨
          h.isNamed "upgrade" = true) ∧
        HeadersAllowed host cl headers := by
  have hnone : ∀ name, valuesOf name (h :: headers) = [] ↔
      ¬h.isNamed name = true ∧ valuesOf name headers = [] := by
    intro name
    rw [valuesOf_cons]
    split
    next hname => simp [hname]
    next hname => simp [hname]
  unfold HeadersAllowed
  rw [hnone "transfer-encoding", hnone "expect", hnone "upgrade", valuesOf_cons "host",
    valuesOf_cons "content-length", if_neg hhost, if_neg hcl, not_or, not_or]
  constructor
  · rintro ⟨hhosts, hlengths, ⟨hte, hte'⟩, ⟨hexpect, hexpect'⟩, hupgrade, hupgrade'⟩
    exact ⟨⟨hte, hexpect, hupgrade⟩, hhosts, hlengths, hte', hexpect', hupgrade'⟩
  · rintro ⟨⟨hte, hexpect, hupgrade⟩, hhosts, hlengths, hte', hexpect', hupgrade'⟩
    exact ⟨hhosts, hlengths, ⟨hte, hte'⟩, ⟨hexpect, hexpect'⟩, hupgrade, hupgrade'⟩

theorem verdict_unless {c : Prop} [Decidable c] {v : Option Bool} :
    (if c then none else v) = some true ↔ ¬c ∧ v = some true := by
  split
  next hc => exact iff_of_false (fun h => by cases h) fun h => h.1 hc
  next hc => exact (and_iff_right hc).symm

theorem verdict_when {c : Prop} [Decidable c] {v : Option Bool} :
    (if c then v else none) = some true ↔ c ∧ v = some true := by
  rw [← ite_not, verdict_unless, not_not]

/-- The loop over the headers accepts what they may say. -/
theorem headersVerdict_iff (headers : List HttpHeader) : ∀ {host cl : Bool},
    (∀ h ∈ headers, IsToken h.name) →
      (headersVerdict host cl (headers.map HttpHeader.line) = some true ↔
        HeadersAllowed host cl headers) := by
  induction headers with
  | nil =>
      intro host cl _
      cases host <;> cases cl <;> simp [headersVerdict, HeadersAllowed, valuesOf]
  | cons h headers ih =>
      intro host cl htoken
      obtain ⟨htoken, htokens⟩ := List.forall_mem_cons.mp htoken
      have hparts : headerParts h.line = some h := headerParts_iff.mpr ⟨rfl, htoken⟩
      rw [List.map_cons, headersVerdict, hparts]
      dsimp only
      by_cases hhost : h.isNamed "host" = true
      · rw [if_pos hhost, verdict_unless, verdict_when, ih htokens, allowed_host hhost,
          Bool.not_eq_true]
      by_cases hcl : h.isNamed "content-length" = true
      · rw [if_neg hhost, if_pos hcl, verdict_unless, verdict_when, ih htokens,
          allowed_length hcl, Bool.not_eq_true]
      rw [if_neg hhost, if_neg hcl, verdict_unless, ih htokens, allowed_other hhost hcl]

/-- And nothing but headers. -/
theorem headersVerdict_parts {b : Bool} (ls : List (List UInt8)) : ∀ {host cl : Bool},
    headersVerdict host cl ls = some b →
      ∃ headers : List HttpHeader, ls = headers.map HttpHeader.line ∧
        ∀ h ∈ headers, IsToken h.name := by
  induction ls with
  | nil => exact fun _ => ⟨[], rfl, by simp⟩
  | cons l ls ih =>
      intro host cl h
      rw [headersVerdict] at h
      match hparts : headerParts l with
      | none =>
          rw [hparts] at h
          cases h
      | some header =>
          rw [hparts] at h
          have hrest : ∃ host cl, headersVerdict host cl ls = some b := by
            dsimp only at h
            split_ifs at h <;> exact ⟨_, _, h⟩
          obtain ⟨host, cl, hrest⟩ := hrest
          obtain ⟨headers, rfl, htoken⟩ := ih hrest
          obtain ⟨rfl, hname⟩ := headerParts_iff.mp hparts
          exact ⟨header :: headers, rfl, List.forall_mem_cons.mpr ⟨hname, htoken⟩⟩

theorem verdict_accepted (req : HttpRequest) : Accepted req.verdict := by
  unfold HttpRequest.verdict Accepted
  split_ifs <;> decide

theorem bytes_lines (req : HttpRequest) :
    req.bytes = linesBytes (req.method ++ 32 :: (req.path ++ 32 :: ascii "HTTP/1.1"))
      (req.headers.map HttpHeader.line) := by
  unfold HttpRequest.bytes linesBytes
  rw [List.flatMap_map]

theorem token_printable {c : UInt8} (h : token c = true) : printable c = true := by
  have hpunct : (ascii "!#$%&'*+-.^_`|~").all printable = true := by decide
  unfold token at h
  simp only [Bool.or_eq_true, Bool.and_eq_true, decide_eq_true_eq, List.contains_iff_mem] at h
  rcases h with ((⟨hlow, hhigh⟩ | ⟨hlow, hhigh⟩) | ⟨hlow, hhigh⟩) | h
  · exact (printable_iff c).mpr
      ⟨UInt8.le_trans (by decide) hlow, UInt8.le_trans hhigh (by decide)⟩
  · exact (printable_iff c).mpr
      ⟨UInt8.le_trans (by decide) hlow, UInt8.le_trans hhigh (by decide)⟩
  · exact (printable_iff c).mpr
      ⟨UInt8.le_trans (by decide) hlow, UInt8.le_trans hhigh (by decide)⟩
  · exact List.all_eq_true.mp hpunct c h

/-- The lines of a request are let through. -/
theorem HttpRequest.WellFormed.linesText {req : HttpRequest} (h : req.WellFormed) :
    LinesText (req.method ++ 32 :: (req.path ++ 32 :: ascii "HTTP/1.1"))
      (req.headers.map HttpHeader.line) where
  line := by
    intro c hc
    have hversion : (ascii "HTTP/1.1").all printable = true := by decide
    rw [List.mem_append, List.mem_cons, List.mem_append, List.mem_cons] at hc
    rcases hc with hc | rfl | hc | rfl | hc
    · exact token_printable (h.method.2 c hc)
    · rfl
    · exact (h.pathText c hc).1
    · rfl
    · exact List.all_eq_true.mp hversion c hc
  nonempty := by
    intro l hl
    obtain ⟨header, -, rfl⟩ := List.mem_map.mp hl
    exact List.append_ne_nil_of_right_ne_nil _ (List.cons_ne_nil _ _)
  headers := by
    intro l hl c hc
    obtain ⟨header, hheader, rfl⟩ := List.mem_map.mp hl
    rw [HttpHeader.line, List.mem_append, List.mem_cons] at hc
    rcases hc with hc | rfl | hc
    · exact token_printable ((h.headerName header hheader).2 c hc)
    · rfl
    · exact h.headerText header hheader c hc

/-- A request that is allowed has its verdict. -/
theorem HttpRequest.WellFormed.linesVerdict {req : HttpRequest} (h : req.WellFormed)
    (hallowed : req.Allowed) :
    linesVerdict (req.method ++ 32 :: (req.path ++ 32 :: ascii "HTTP/1.1"))
      (req.headers.map HttpHeader.line) = req.verdict := by
  have hline : requestLine (req.method ++ 32 :: (req.path ++ 32 :: ascii "HTTP/1.1"))
      = some (req.method, req.path) :=
    requestLine_iff.mpr ⟨rfl, h.method, h.path, fun c hc => (h.pathText c hc).2⟩
  have hheaders := (headersVerdict_iff req.headers h.headerName).mpr (req.allowed_iff.mp hallowed)
  unfold PicoBridge.linesVerdict
  rw [hline, hheaders]
  rfl

/-- And lines that are accepted are those of such a request. -/
theorem request_of_linesVerdict {line : List UInt8} {headers : List (List UInt8)}
    (htext : LinesText line headers) (hr : Accepted (linesVerdict line headers)) :
    ∃ req : HttpRequest, req.WellFormed ∧ req.Allowed ∧ req.bytes = linesBytes line headers ∧
      req.verdict = linesVerdict line headers := by
  match hline : requestLine line, hheaders : headersVerdict false false headers with
  | none, _ =>
      unfold linesVerdict at hr
      rw [hline] at hr
      exact absurd rfl hr.2.2
  | some (method, path), none =>
      unfold linesVerdict at hr
      rw [hline, hheaders] at hr
      exact absurd rfl hr.2.2
  | some (method, path), some false =>
      unfold linesVerdict at hr
      rw [hline, hheaders] at hr
      exact absurd rfl hr.2.2
  | some (method, path), some true =>
      obtain ⟨rfl, hmethod, hslash, hspace⟩ := requestLine_iff.mp hline
      obtain ⟨headers, rfl, htoken⟩ := headersVerdict_parts _ hheaders
      let req : HttpRequest := ⟨method, path, headers⟩
      have hwell : req.WellFormed := by
        refine ⟨hmethod, hslash, fun c hc => ⟨htext.line c ?_, hspace c hc⟩, htoken,
          fun h hh c hc => htext.headers h.line (List.mem_map_of_mem hh) c ?_⟩
        · exact List.mem_append_right _ (List.mem_cons_of_mem _ (List.mem_append_left _ hc))
        · exact List.mem_append_right _ (List.mem_cons_of_mem _ hc)
      have hallowed : req.Allowed :=
        req.allowed_iff.mpr ((headersVerdict_iff headers htoken).mp hheaders)
      exact ⟨req, hwell, hallowed, bytes_lines req, (hwell.linesVerdict hallowed).symm⟩

/-- A buffer that the first loop lets through gets the verdict on its lines. -/
theorem request_lines (hscan : Scanned p p.length) (hne : p ≠ []) :
    ∃ line headers, LinesText line headers ∧ p = linesBytes line headers ∧
      radioHttpRequest p p.length = some (linesVerdict line headers) := by
  obtain ⟨hclean, hend, hsuffix⟩ := scanned_iff.mp ⟨hscan, hne⟩
  obtain ⟨line, headers, htext, hp⟩ := scanned_lines p.length rfl hclean hend hsuffix
  exact ⟨line, headers, htext, hp, request_eq htext hp⟩

/-- No buffer makes the recogniser read outside of it. -/
theorem parse_total (p : List UInt8) : ∃ r, radioHttpParse (some p) p.length = some r := by
  simp only [parse_some_iff]
  by_cases hlen : p.length ≤ radioHttpMax
  swap
  · exact ⟨_, .long (Nat.not_le.mp hlen)⟩
  rcases scan_cases p with ⟨hbad, -⟩ | ⟨stop, hscan, -⟩
  · exact ⟨_, .octet hlen hbad⟩
  by_cases hzero : stop = 0
  · subst hzero
    rcases Nat.lt_or_eq_of_le hlen with hlt | heq
    · exact ⟨_, .waits hlt hscan⟩
    · exact ⟨_, .full heq hscan⟩
  by_cases hstop : stop = p.length
  swap
  · exact ⟨_, .behind hlen hscan hzero hstop⟩
  subst hstop
  obtain ⟨line, headers, -, -, heq⟩ := request_lines hscan (List.length_eq_zero_iff.not.mp hzero)
  exact ⟨_, .request hlen hscan hzero heq⟩

/-- An accepted buffer is a request, and gets its verdict. -/
theorem accepted_iff {r : HttpResult} (hr : Accepted r) (hlen : p.length ≤ radioHttpMax) :
    radioHttpParse (some p) p.length = some r ↔
      ∃ req : HttpRequest, req.WellFormed ∧ req.Allowed ∧ req.bytes = p ∧ req.verdict = r := by
  refine parse_some_iff.trans ⟨fun h => ?_, ?_⟩
  · cases h with
    | long => exact absurd rfl hr.2.1
    | octet => exact absurd rfl hr.2.2
    | waits => exact absurd rfl hr.1
    | full => exact absurd rfl hr.2.1
    | behind => exact absurd rfl hr.2.2
    | request hlen hscan hne hreq =>
        obtain ⟨line, headers, htext, hp, heq⟩ :=
          request_lines hscan (List.length_eq_zero_iff.not.mp hne)
        obtain rfl := Option.some.inj (heq.symm.trans hreq)
        rw [hp]
        exact request_of_linesVerdict htext hr
  · rintro ⟨req, hwell, hallowed, rfl, rfl⟩
    have hlines := bytes_lines req
    have hscan := lines_scanned hwell.linesText
    rw [← hlines] at hscan
    obtain ⟨hscan, hne⟩ := scanned_iff.mpr hscan
    refine .request hlen hscan (List.length_eq_zero_iff.not.mpr hne) ?_
    rw [request_eq hwell.linesText hlines, hwell.linesVerdict hallowed]

/-- The recogniser, on every buffer. It never reads outside of it; up to
1024 bytes it accepts what is a request that is allowed and nothing else;
and the verdict is that on its method and its path. -/
theorem http_recognises (p : List UInt8) :
    (∃ r, radioHttpParse (some p) p.length = some r) ∧
    (p.length ≤ radioHttpMax →
      ((∃ r, Accepted r ∧ radioHttpParse (some p) p.length = some r) ↔
        ∃ req : HttpRequest, req.WellFormed ∧ req.Allowed ∧ req.bytes = p) ∧
      ∀ req : HttpRequest, req.WellFormed → req.Allowed → req.bytes = p →
        radioHttpParse (some p) p.length = some req.verdict) := by
  refine ⟨parse_total p, fun hlen => ?_⟩
  have hverdict : ∀ req : HttpRequest, req.WellFormed → req.Allowed → req.bytes = p →
      radioHttpParse (some p) p.length = some req.verdict := fun req hwell hallowed hp =>
    (accepted_iff (verdict_accepted req) hlen).mpr ⟨req, hwell, hallowed, hp, rfl⟩
  refine ⟨⟨?_, ?_⟩, hverdict⟩
  · rintro ⟨r, hr, heq⟩
    obtain ⟨req, hwell, hallowed, hp, -⟩ := (accepted_iff hr hlen).mp heq
    exact ⟨req, hwell, hallowed, hp⟩
  · rintro ⟨req, hwell, hallowed, hp⟩
    exact ⟨req.verdict, verdict_accepted req, hverdict req hwell hallowed hp⟩

end PicoBridge
