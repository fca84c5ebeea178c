/-
`firmware/radio/dhcp_wire.c`: the reader of DHCP requests.

# What is modelled how

The reader is on the bytes it reads, as the recogniser of requests is: a
read at or beyond the end of them is `none`. A result is what is returned,
with what `out` points to behind it.

# The message type

An option 50 or 54 that is there twice is refused by a flag. The message
type is its own flag: one whose value is 0 does not count, and another may
follow. So the reader takes more than one message type where all but the
last are 0 (`dhcpParse_packet`), and is right on all other packets.
-/
import PicoBridge.Lib.Cursor
import PicoBridge.Lib.Tlv
import PicoBridge.Radio.Http

namespace PicoBridge

open Lib.Cursor Lib.Tlv

-- =============================================================== the reader

def radioDhcpMax : Nat := 576

@[ext]
structure RadioDhcpRequest where
  type : UInt8
  mac : List UInt8
  xid : List UInt8
  requested : List UInt8
  server : List UInt8
  ciaddr : List UInt8
  hasRequested : Bool
  hasServer : Bool
  deriving DecidableEq

/-- A request that is all zero. -/
def RadioDhcpRequest.zero : RadioDhcpRequest where
  type := 0
  mac := [0, 0, 0, 0, 0, 0]
  xid := [0, 0, 0, 0]
  requested := [0, 0, 0, 0]
  server := [0, 0, 0, 0]
  ciaddr := [0, 0, 0, 0]
  hasRequested := false
  hasServer := false

/-- The checks of the fixed header. -/
def dhcpHeaderBad (p : List UInt8) : Option Bool := do
  let op ← p[0]?
  if op ≠ 1 then some true
  else do
    let htype ← p[1]?
    if htype ≠ 1 then some true
    else do
      let hlen ← p[2]?
      if hlen ≠ 6 then some true
      else do
        let hops ← p[3]?
        if hops ≠ 0 then some true
        else do
          let relay ← readAt p 24 4
          if relay ≠ [0, 0, 0, 0] then some true
          else do
            let magic ← readAt p 236 4
            if magic ≠ [0x63, 0x82, 0x53, 0x63] then some true
            else do
              let m0 ← p[28]?
              if m0 &&& 1 ≠ 0 then some true
              else do
                let m1 ← p[29]?
                let m2 ← p[30]?
                let m3 ← p[31]?
                let m4 ← p[32]?
                let m5 ← p[33]?
                some (m0 ||| m1 ||| m2 ||| m3 ||| m4 ||| m5 == 0)

/-- What the loop does with an option whose value is at `i`, or none for one
that is refused. -/
def dhcpOption (p : List UInt8) (i : Nat) (opt : UInt8) (len : Nat) (r : RadioDhcpRequest) :
    Option (Option RadioDhcpRequest) :=
  if opt = 53 then
    if len ≠ 1 ∨ r.type ≠ 0 then some none
    else do
      let type ← p[i]?
      some (some { r with type })
  else if opt = 50 then
    if len ≠ 4 ∨ r.hasRequested then some none
    else do
      let requested ← readAt p i 4
      some (some { r with requested, hasRequested := true })
  else if opt = 54 then
    if len ≠ 4 ∨ r.hasServer then some none
    else do
      let server ← readAt p i 4
      some (some { r with server, hasServer := true })
  else if opt = 52 then some none
  else some (some r)

/-- The loop over the options: `ended` and the request, or none for an
option that is refused. -/
def dhcpOptionsFrom (p : List UInt8) (n i : Nat) (r : RadioDhcpRequest) :
    Option (Option (Bool × RadioDhcpRequest)) :=
  if i < n then do
    let opt ← p[i]?
    if opt = 0 then dhcpOptionsFrom p n (i + 1) r
    else if opt = 255 then some (some (true, r))
    else if i + 1 = n then some none
    else do
      let len ← p[i + 1]?
      if len.toNat > n - (i + 2) then some none
      else
        match ← dhcpOption p (i + 2) opt len.toNat r with
        | none => some none
        | some r => dhcpOptionsFrom p n (i + 2 + len.toNat) r
  else some (some (false, r))
termination_by n - i

/-- `radio_dhcp_parse`. -/
def radioDhcpParse (p : Option (List UInt8)) (n : Nat) (out : Option RadioDhcpRequest) :
    Option (Bool × Option RadioDhcpRequest) :=
  match out, p with
  | none, _ => some (false, none)
  | some _, none => some (false, some .zero)
  | some _, some p =>
      if n < 240 ∨ n > radioDhcpMax then some (false, some .zero)
      else do
        let bad ← dhcpHeaderBad p
        if bad then some (false, some .zero)
        else do
          let mac ← readAt p 28 6
          let xid ← readAt p 4 4
          let ciaddr ← readAt p 12 4
          match ← dhcpOptionsFrom p n 240 { RadioDhcpRequest.zero with mac, xid, ciaddr } with
          | none => some (false, some .zero)
          | some (ended, r) =>
              if !ended ∨ (r.type ≠ 1 ∧ r.type ≠ 3) then some (false, some .zero)
              else some (true, some r)

-- ============================================================== the options

variable {p : List UInt8}

/-- An option, on its value. -/
def takeOption (r : RadioDhcpRequest) (o : Item) : Option RadioDhcpRequest :=
  if o.tag = 53 then
    if o.value.length ≠ 1 ∨ r.type ≠ 0 then none else some { r with type := o.value.headD 0 }
  else if o.tag = 50 then
    if o.value.length ≠ 4 ∨ r.hasRequested then none
    else some { r with requested := o.value, hasRequested := true }
  else if o.tag = 54 then
    if o.value.length ≠ 4 ∨ r.hasServer then none
    else some { r with server := o.value, hasServer := true }
  else if o.tag = 52 then none
  else some r

/-- A pad or an option. -/
def takeField (r : RadioDhcpRequest) : Field → Option RadioDhcpRequest
  | .pad => some r
  | .option o => takeOption r o

theorem readAt_at {s : List UInt8} {i : Nat} (h : At p i s) (hne : s ≠ []) :
    readAt p i s.length = some s := by
  unfold readAt
  rw [if_pos (h.le hne), h.take]

theorem dhcpOption_at {i : Nat} {o : Item} (h : At p i o.value) (r : RadioDhcpRequest) :
    dhcpOption p i o.tag o.value.length r = some (takeOption r o) := by
  have haddress : o.value.length = 4 → readAt p i 4 = some o.value := by
    intro hlen
    have hread := readAt_at h (List.ne_nil_of_length_pos (by omega))
    rwa [hlen] at hread
  unfold dhcpOption takeOption
  split
  · split
    · rfl
    next hone =>
      -- the one byte of a message type
      rw [not_or, not_not] at hone
      obtain ⟨b, hvalue⟩ := List.length_eq_one_iff.mp hone.1
      rw [hvalue] at h ⊢
      rw [(at_cons h).1]
      rfl
  split
  · split
    · rfl
    next hfour =>
      rw [haddress (not_not.mp (not_or.mp hfour).1)]
      rfl
  split
  · split
    · rfl
    next hfour =>
      rw [haddress (not_not.mp (not_or.mp hfour).1)]
      rfl
  split <;> rfl

-- ================================================================= the loop

theorem drop_cons {i : Nat} {c : UInt8} {rest : List UInt8} (h : p.drop i = c :: rest) :
    i + 1 + rest.length = p.length ∧ p[i]? = some c ∧ p.drop (i + 1) = rest := by
  have hlength := congrArg List.length h
  rw [List.length_drop, List.length_cons] at hlength
  have htail : p.drop (i + 1) = (p.drop i).tail := List.tail_drop.symm
  rw [h] at htail
  refine ⟨by omega, ?_, htail⟩
  rw [← List.head?_drop, h]
  rfl

theorem dhcpOptionsFrom_pad {i : Nat} {rest : List UInt8} (h : p.drop i = 0 :: rest)
    (r : RadioDhcpRequest) :
    dhcpOptionsFrom p p.length i r = dhcpOptionsFrom p p.length (i + 1) r := by
  obtain ⟨hlength, hread, -⟩ := drop_cons h
  rw [dhcpOptionsFrom, if_pos (by omega), hread, Option.bind_eq_bind, Option.bind_some, if_pos rfl]

theorem dhcpOptionsFrom_end {i : Nat} {rest : List UInt8} (h : p.drop i = 255 :: rest)
    (r : RadioDhcpRequest) : dhcpOptionsFrom p p.length i r = some (some (true, r)) := by
  obtain ⟨hlength, hread, -⟩ := drop_cons h
  rw [dhcpOptionsFrom, if_pos (by omega), hread, Option.bind_eq_bind, Option.bind_some,
    if_neg (by decide), if_pos rfl]

theorem dhcpOptionsFrom_option {i : Nat} {o : Item} {rest : List UInt8}
    (h : p.drop i = o.tag :: UInt8.ofNat o.value.length :: (o.value ++ rest))
    (r : RadioDhcpRequest) :
    p.drop (i + 2 + o.value.length) = rest ∧
    (takeOption r o = none → dhcpOptionsFrom p p.length i r = some none) ∧
    ∀ r', takeOption r o = some r' → dhcpOptionsFrom p p.length i r
      = dhcpOptionsFrom p p.length (i + 2 + o.value.length) r' := by
  obtain ⟨hlength, hread, hbehind⟩ := drop_cons h
  obtain ⟨hlength', hlen, hvalue⟩ := drop_cons hbehind
  rw [List.length_append] at hlength'
  have hfits : (UInt8.ofNat o.value.length).toNat = o.value.length :=
    UInt8.toNat_ofNat_of_lt' o.fits
  have hat : At p (i + 2) o.value := by
    unfold At
    rw [hvalue]
    exact List.prefix_append _ _
  have hstep : dhcpOptionsFrom p p.length i r = (some (takeOption r o)).bind fun
      | none => some none
      | some r' => dhcpOptionsFrom p p.length (i + 2 + o.value.length) r' := by
    rw [dhcpOptionsFrom, if_pos (by omega), hread, Option.bind_eq_bind, Option.bind_some,
      if_neg o.isTag.1, if_neg o.isTag.2, if_neg (by omega), hlen, Option.bind_eq_bind,
      Option.bind_some, hfits, if_neg (by omega), dhcpOption_at hat]
  refine ⟨?_, ?_, ?_⟩
  · rw [← List.drop_drop, hvalue, List.drop_left]
  · intro htake
    rw [hstep, htake]
    rfl
  · intro r' htake
    rw [hstep, htake]
    rfl

theorem dhcpOptionsFrom_bare {i : Nat} {tag : UInt8} (hpad : tag ≠ 0) (hend : tag ≠ 255)
    (h : p.drop i = [tag]) (r : RadioDhcpRequest) :
    dhcpOptionsFrom p p.length i r = some none := by
  obtain ⟨hlength, hread, -⟩ := drop_cons h
  rw [List.length_nil] at hlength
  rw [dhcpOptionsFrom, if_pos (by omega), hread, Option.bind_eq_bind, Option.bind_some,
    if_neg hpad, if_neg hend, if_pos (by omega)]

theorem dhcpOptionsFrom_cut {i : Nat} {tag len : UInt8} {rest : List UInt8} (hpad : tag ≠ 0)
    (hend : tag ≠ 255) (hcut : rest.length < len.toNat) (h : p.drop i = tag :: len :: rest)
    (r : RadioDhcpRequest) : dhcpOptionsFrom p p.length i r = some none := by
  obtain ⟨hlength, hread, hbehind⟩ := drop_cons h
  obtain ⟨hlength', hlen, -⟩ := drop_cons hbehind
  rw [dhcpOptionsFrom, if_pos (by omega), hread, Option.bind_eq_bind, Option.bind_some,
    if_neg hpad, if_neg hend, if_neg (by omega), hlen, Option.bind_eq_bind, Option.bind_some,
    if_pos (by omega)]

theorem dhcpOptionsFrom_nil {i : Nat} (h : p.drop i = []) (r : RadioDhcpRequest) :
    dhcpOptionsFrom p p.length i r = some (some (false, r)) := by
  rw [dhcpOptionsFrom, if_neg (Nat.not_lt.mpr (List.drop_eq_nil_iff.mp h))]

/-- The loop takes the fields of the area, one by one. -/
theorem options_read {bytes : List UInt8} : ∀ {fields : List Field} {i : Nat}
    {r : RadioDhcpRequest}, p.drop i = bytes → read bytes = some fields →
      dhcpOptionsFrom p p.length i r
        = some ((fields.foldlM takeField r).map fun r => (true, r)) := by
  induction bytes using read_induction with
  | nil =>
      intro fields i r _ hread
      rw [read_nil] at hread
      cases hread
  | pad rest ih =>
      intro fields i r h hread
      rw [read_pad] at hread
      obtain ⟨fields, hfields, rfl⟩ := Option.map_eq_some_iff.mp hread
      rw [dhcpOptionsFrom_pad h, ih (drop_cons h).2.2 hfields]
      rfl
  | stop rest =>
      intro fields i r h hread
      rw [read_end] at hread
      cases hread
      rw [dhcpOptionsFrom_end h]
      rfl
  | option o rest ih =>
      intro fields i r h hread
      rw [read_option] at hread
      obtain ⟨fields, hfields, rfl⟩ := Option.map_eq_some_iff.mp hread
      obtain ⟨hrest, hnone, hsome⟩ := dhcpOptionsFrom_option h r
      rw [List.foldlM_cons, takeField]
      match htake : takeOption r o with
      | none =>
          rw [hnone htake]
          rfl
      | some r' =>
          rw [hsome r' htake, ih hrest hfields]
          rfl
  | bare tag hpad hend =>
      intro fields i r _ hread
      rw [read_bare hpad hend] at hread
      cases hread
  | cut tag len rest hpad hend hcut =>
      intro fields i r _ hread
      rw [read_cut hpad hend hcut] at hread
      cases hread

/-- Without an area there is no end. -/
theorem options_unread {bytes : List UInt8} : ∀ {i : Nat} {r : RadioDhcpRequest},
    p.drop i = bytes → read bytes = none →
      dhcpOptionsFrom p p.length i r = some none ∨
        ∃ r', dhcpOptionsFrom p p.length i r = some (some (false, r')) := by
  induction bytes using read_induction with
  | nil => exact fun h _ => .inr ⟨_, dhcpOptionsFrom_nil h _⟩
  | pad rest ih =>
      intro i r h hread
      rw [read_pad, Option.map_eq_none_iff] at hread
      rw [dhcpOptionsFrom_pad h]
      exact ih (drop_cons h).2.2 hread
  | stop rest =>
      intro i r _ hread
      rw [read_end] at hread
      cases hread
  | option o rest ih =>
      intro i r h hread
      rw [read_option, Option.map_eq_none_iff] at hread
      obtain ⟨hrest, hnone, hsome⟩ := dhcpOptionsFrom_option h r
      match htake : takeOption r o with
      | none => exact .inl (hnone htake)
      | some r' =>
          rw [hsome r' htake]
          exact ih hrest hread
  | bare tag hpad hend => exact fun h _ => .inl (dhcpOptionsFrom_bare hpad hend h _)
  | cut tag len rest hpad hend hcut =>
      exact fun h _ => .inl (dhcpOptionsFrom_cut hpad hend hcut h _)

-- ============================================================ by their tags

/-- The message types: none behind one that is not 0. -/
def TypeTaken : UInt8 → List (List UInt8) → UInt8 → Prop
  | type, [], type' => type' = type
  | type, value :: values, type' =>
      value.length = 1 ∧ type = 0 ∧ TypeTaken (value.headD 0) values type'

/-- The addresses of a tag: none behind one. -/
def AddressTaken : Bool → List UInt8 → List (List UInt8) → Bool → List UInt8 → Prop
  | has, address, [], has', address' => has' = has ∧ address' = address
  | has, _, value :: values, has', address' =>
      value.length = 4 ∧ has = false ∧ AddressTaken true value values has' address'

/-- From a request to another by options: each tag has its own. -/
def FieldsTaken (r : RadioDhcpRequest) (fields : List Field) (r' : RadioDhcpRequest) : Prop :=
  TypeTaken r.type (values 53 fields) r'.type ∧
  AddressTaken r.hasRequested r.requested (values 50 fields) r'.hasRequested r'.requested ∧
  AddressTaken r.hasServer r.server (values 54 fields) r'.hasServer r'.server ∧
  values 52 fields = [] ∧ r'.mac = r.mac ∧ r'.xid = r.xid ∧ r'.ciaddr = r.ciaddr

theorem values_own {tag : UInt8} {o : Item} (h : o.tag = tag) (fields : List Field) :
    values tag (.option o :: fields) = o.value :: values tag fields := by
  rw [values_option, if_pos h]

theorem values_other {tag other : UInt8} {o : Item} (h : o.tag = tag) (hne : tag ≠ other)
    (fields : List Field) : values other (.option o :: fields) = values other fields := by
  rw [values_option, if_neg (by rw [h]; exact hne)]

theorem exists_unless {α : Type} {c : Prop} [Decidable c] {a : α} {P : α → Prop} :
    (∃ b, (if c then none else some a) = some b ∧ P b) ↔ ¬c ∧ P a := by
  split
  next hc => exact iff_of_false (fun ⟨_, h, _⟩ => by cases h) fun h => h.1 hc
  next hc =>
    constructor
    · rintro ⟨b, h, hb⟩
      cases h
      exact ⟨hc, hb⟩
    · exact fun h => ⟨a, rfl, h.2⟩

/-- An option, and others behind it. -/
theorem fieldsTaken_option {r r' : RadioDhcpRequest} {o : Item} {fields : List Field} :
    FieldsTaken r (.option o :: fields) r' ↔
      ∃ r₁, takeOption r o = some r₁ ∧ FieldsTaken r₁ fields r' := by
  unfold takeOption
  by_cases htype : o.tag = 53
  · rw [if_pos htype, exists_unless]
    unfold FieldsTaken
    rw [values_own htype, values_other htype (show 53 ≠ 50 by decide),
      values_other htype (show 53 ≠ 54 by decide), values_other htype (show 53 ≠ 52 by decide),
      TypeTaken, not_or, not_not, not_not, and_assoc, and_assoc, and_assoc]
  rw [if_neg htype]
  by_cases hrequested : o.tag = 50
  · rw [if_pos hrequested, exists_unless]
    unfold FieldsTaken
    rw [values_own hrequested, values_other hrequested (show 50 ≠ 53 by decide),
      values_other hrequested (show 50 ≠ 54 by decide),
      values_other hrequested (show 50 ≠ 52 by decide), AddressTaken, not_or, not_not,
      Bool.not_eq_true]
    constructor
    · rintro ⟨htype, ⟨hlen, hhas, haddress⟩, hrest⟩
      exact ⟨⟨hlen, hhas⟩, htype, haddress, hrest⟩
    · rintro ⟨⟨hlen, hhas⟩, htype, haddress, hrest⟩
      exact ⟨htype, ⟨hlen, hhas, haddress⟩, hrest⟩
  rw [if_neg hrequested]
  by_cases hserver : o.tag = 54
  · rw [if_pos hserver, exists_unless]
    unfold FieldsTaken
    rw [values_own hserver, values_other hserver (show 54 ≠ 53 by decide),
      values_other hserver (show 54 ≠ 50 by decide), values_other hserver (show 54 ≠ 52 by decide),
      AddressTaken, not_or, not_not, Bool.not_eq_true]
    constructor
    · rintro ⟨htype, hrequested, ⟨hlen, hhas, haddress⟩, hrest⟩
      exact ⟨⟨hlen, hhas⟩, htype, hrequested, haddress, hrest⟩
    · rintro ⟨⟨hlen, hhas⟩, htype, hrequested, haddress, hrest⟩
      exact ⟨htype, hrequested, ⟨hlen, hhas, haddress⟩, hrest⟩
  rw [if_neg hserver]
  by_cases hoverload : o.tag = 52
  · rw [if_pos hoverload]
    refine iff_of_false (fun ⟨_, _, _, hnone, _⟩ => ?_) fun ⟨_, h, _⟩ => by cases h
    rw [values_own hoverload] at hnone
    cases hnone
  rw [if_neg hoverload]
  unfold FieldsTaken
  simp only [values_option, if_neg htype, if_neg hrequested, if_neg hserver, if_neg hoverload,
    Option.some_inj, exists_eq_left']

theorem fieldsTaken_nil {r r' : RadioDhcpRequest} : FieldsTaken r [] r' ↔ r = r' := by
  constructor
  · rintro ⟨htype, ⟨hhas, haddress⟩, ⟨hhas', haddress'⟩, -, hmac, hxid, hciaddr⟩
    obtain ⟨type, mac, xid, requested, server, ciaddr, hasRequested, hasServer⟩ := r'
    cases htype
    cases hhas
    cases haddress
    cases hhas'
    cases haddress'
    cases hmac
    cases hxid
    cases hciaddr
    rfl
  · rintro rfl
    exact ⟨rfl, ⟨rfl, rfl⟩, ⟨rfl, rfl⟩, rfl, rfl, rfl, rfl⟩

/-- Whatever is between them. -/
theorem foldlM_takeField {fields : List Field} : ∀ {r r' : RadioDhcpRequest},
    fields.foldlM takeField r = some r' ↔ FieldsTaken r fields r' := by
  induction fields with
  | nil =>
      intro r r'
      rw [List.foldlM_nil, Option.pure_def, Option.some_inj, fieldsTaken_nil]
  | cons field fields ih =>
      intro r r'
      cases field with
      | pad =>
          rw [List.foldlM_cons, takeField, Option.bind_eq_bind, Option.bind_some, ih]
          rfl
      | option o =>
          rw [List.foldlM_cons, takeField, Option.bind_eq_bind, Option.bind_eq_some_iff,
            fieldsTaken_option]
          simp only [ih]

/-- From no message type to one that a request can have: all but the last
are 0. -/
theorem typeTaken_iff {type : UInt8} (hne : type ≠ 0) {vs : List (List UInt8)} :
    TypeTaken 0 vs type ↔ ∃ k, vs = List.replicate k [0] ++ [[type]] := by
  induction vs with
  | nil =>
      refine iff_of_false hne fun ⟨k, hk⟩ => ?_
      exact List.append_ne_nil_of_right_ne_nil _ (List.cons_ne_nil _ _) hk.symm
  | cons value vs ih =>
      constructor
      · rintro ⟨hlen, -, htaken⟩
        obtain ⟨b, rfl⟩ := List.length_eq_one_iff.mp hlen
        change TypeTaken b vs type at htaken
        by_cases hb : b = 0
        · subst hb
          obtain ⟨k, rfl⟩ := ih.mp htaken
          exact ⟨k + 1, rfl⟩
        · match vs with
          | [] =>
              obtain rfl : type = b := htaken
              exact ⟨0, rfl⟩
          | _ :: _ => exact absurd htaken.2.1 hb
      · rintro ⟨k, hk⟩
        cases k with
        | zero =>
            obtain ⟨rfl, rfl⟩ := List.cons.inj hk
            exact ⟨rfl, rfl, rfl⟩
        | succ k =>
            obtain ⟨rfl, hvs⟩ := List.cons.inj hk
            exact ⟨rfl, rfl, ih.mpr ⟨k, hvs⟩⟩

/-- From no address to at most one. -/
theorem addressTaken_iff {zero address : List UInt8} {has : Bool} {vs : List (List UInt8)} :
    AddressTaken false zero vs has address ↔
      (vs = [] ∨ ∃ a, a.length = 4 ∧ vs = [a]) ∧ has = !vs.isEmpty ∧ address = vs.headD zero := by
  match vs with
  | [] => simp [AddressTaken]
  | [value] => simp [AddressTaken]
  | value :: value' :: vs => simp [AddressTaken]

-- ================================================================ the header

/-- The header of a request, over Ethernet, from a unicast address. -/
structure DhcpHeader (p : List UInt8) : Prop where
  op : p.getD 0 0 = 1
  htype : p.getD 1 0 = 1
  hlen : p.getD 2 0 = 6
  hops : p.getD 3 0 = 0
  relay : (p.drop 24).take 4 = [0, 0, 0, 0]
  magic : (p.drop 236).take 4 = [0x63, 0x82, 0x53, 0x63]
  unicast : p.getD 28 0 &&& 1 = 0
  nonzero : (p.drop 28).take 6 ≠ [0, 0, 0, 0, 0, 0]

theorem getD_slice {i n j : Nat} (hj : j < n) :
    ((p.drop i).take n).getD j 0 = p.getD (i + j) 0 := by
  rw [List.getD_eq_getElem?_getD, List.getElem?_take_of_lt hj, List.getElem?_drop,
    List.getD_eq_getElem?_getD]

theorem readAt_le {i n : Nat} (h : i + n ≤ p.length) : readAt p i n = some ((p.drop i).take n) :=
  if_pos h

/-- The six bytes of an address, as the code puts them together. -/
theorem mac_zero (h : 34 ≤ p.length) :
    p.getD 28 0 ||| p.getD 29 0 ||| p.getD 30 0 ||| p.getD 31 0 ||| p.getD 32 0 |||
        p.getD 33 0 = 0 ↔
      (p.drop 28).take 6 = [0, 0, 0, 0, 0, 0] := by
  have hlength : ((p.drop 28).take 6).length = 6 := by
    rw [List.length_take, List.length_drop]
    omega
  have hget : ∀ j < 6, ((p.drop 28).take 6).getD j 0 = p.getD (28 + j) 0 :=
    fun j hj => getD_slice hj
  rw [← hget 0 (by decide), ← hget 1 (by decide), ← hget 2 (by decide), ← hget 3 (by decide),
    ← hget 4 (by decide), ← hget 5 (by decide)]
  generalize (p.drop 28).take 6 = mac at hlength
  match mac, hlength with
  | [a, b, c, d, e, f], _ => simp [and_assoc]

/-- A check in front of others. -/
theorem checked {P c : Prop} [Decidable c] {x : Option Bool} (hc : P → ¬c)
    (h : ¬c → ∃ bad, x = some bad ∧ (bad = false ↔ P)) :
    ∃ bad, (if c then some true else x) = some bad ∧ (bad = false ↔ P) := by
  by_cases hfails : c
  · exact ⟨true, if_pos hfails, by simp, fun hP => absurd hfails (hc hP)⟩
  · rw [if_neg hfails]
    exact h hfails

theorem dhcpHeaderBad_eq (h : 240 ≤ p.length) :
    ∃ bad, dhcpHeaderBad p = some bad ∧ (bad = false ↔ DhcpHeader p) := by
  have hread : ∀ {i}, i < 240 → p[i]? = some (p.getD i 0) := fun hi => read_lt (by omega)
  unfold dhcpHeaderBad
  simp only [hread (show 0 < 240 by decide), hread (show 1 < 240 by decide),
    hread (show 2 < 240 by decide), hread (show 3 < 240 by decide), hread (show 28 < 240 by decide),
    hread (show 29 < 240 by decide), hread (show 30 < 240 by decide),
    hread (show 31 < 240 by decide), hread (show 32 < 240 by decide),
    hread (show 33 < 240 by decide), readAt_le (show 24 + 4 ≤ p.length by omega),
    readAt_le (show 236 + 4 ≤ p.length by omega), Option.bind_eq_bind, Option.bind_some]
  refine checked (fun hd => not_not_intro hd.op) fun hop => ?_
  refine checked (fun hd => not_not_intro hd.htype) fun htype => ?_
  refine checked (fun hd => not_not_intro hd.hlen) fun hlen => ?_
  refine checked (fun hd => not_not_intro hd.hops) fun hhops => ?_
  refine checked (fun hd => not_not_intro hd.relay) fun hrelay => ?_
  refine checked (fun hd => not_not_intro hd.magic) fun hmagic => ?_
  refine checked (fun hd => not_not_intro hd.unicast) fun hunicast => ?_
  refine ⟨_, rfl, ?_⟩
  rw [beq_eq_false_iff_ne, ne_eq, mac_zero (by omega)]
  exact ⟨fun hmac => ⟨not_not.mp hop, not_not.mp htype, not_not.mp hlen, not_not.mp hhops,
    not_not.mp hrelay, not_not.mp hmagic, not_not.mp hunicast, hmac⟩, fun hd => hd.nonzero⟩

-- =============================================================== the packets

/-- The parts of a packet, but for its message types: a header, and an area
with at most one address of either kind and no overload. -/
structure DhcpPacket (p : List UInt8) (fields : List Field) : Prop where
  length : 240 ≤ p.length ∧ p.length ≤ radioDhcpMax
  header : DhcpHeader p
  area : ∃ rest, p.drop 240 = area fields rest
  requested : values 50 fields = [] ∨ ∃ a, a.length = 4 ∧ values 50 fields = [a]
  server : values 54 fields = [] ∨ ∃ a, a.length = 4 ∧ values 54 fields = [a]
  overload : values 52 fields = []

/-- A request: a packet with one message type, DISCOVER or REQUEST. -/
def DhcpWellFormed (p : List UInt8) (fields : List Field) : Prop :=
  DhcpPacket p fields ∧ (values 53 fields = [[1]] ∨ values 53 fields = [[3]])

/-- A packet with more than one message type, where all but the last are
0. -/
def DhcpShadowed (p : List UInt8) : Prop :=
  ∃ fields k, DhcpPacket p fields ∧
    (values 53 fields = List.replicate (k + 1) [0] ++ [[1]] ∨
      values 53 fields = List.replicate (k + 1) [0] ++ [[3]])

/-- What a packet of these fields says. -/
def dhcpRequest (p : List UInt8) (fields : List Field) : RadioDhcpRequest where
  type := ((values 53 fields).getLastD []).headD 0
  mac := (p.drop 28).take 6
  xid := (p.drop 4).take 4
  requested := (values 50 fields).headD [0, 0, 0, 0]
  server := (values 54 fields).headD [0, 0, 0, 0]
  ciaddr := (p.drop 12).take 4
  hasRequested := !(values 50 fields).isEmpty
  hasServer := !(values 54 fields).isEmpty

/-- The reader does what it is for: it takes a request as it is, and leaves
zeros of anything else. -/
def DhcpMeets (p : List UInt8) (out : RadioDhcpRequest) : Prop :=
  (∀ fields, DhcpWellFormed p fields →
    radioDhcpParse (some p) p.length (some out) = some (true, some (dhcpRequest p fields))) ∧
  ((¬∃ fields, DhcpWellFormed p fields) →
    radioDhcpParse (some p) p.length (some out) = some (false, some .zero))

/-- The request that the loop starts from. -/
def dhcpStart (p : List UInt8) : RadioDhcpRequest :=
  { RadioDhcpRequest.zero with
    mac := (p.drop 28).take 6
    xid := (p.drop 4).take 4
    ciaddr := (p.drop 12).take 4 }

/-- What the reader takes from an area, if it takes it. -/
theorem fieldsTaken_packet {fields : List Field} {r : RadioDhcpRequest} (hne : r.type ≠ 0) :
    FieldsTaken (dhcpStart p) fields r ↔
      (∃ k, values 53 fields = List.replicate k [0] ++ [[r.type]]) ∧
      (values 50 fields = [] ∨ ∃ a, a.length = 4 ∧ values 50 fields = [a]) ∧
      (values 54 fields = [] ∨ ∃ a, a.length = 4 ∧ values 54 fields = [a]) ∧
      values 52 fields = [] ∧ r = dhcpRequest p fields := by
  have htypes := @typeTaken_iff r.type hne (values 53 fields)
  unfold FieldsTaken
  rw [RadioDhcpRequest.ext_iff]
  constructor
  · rintro ⟨htype, hrequested, hserver, hoverload, hmac, hxid, hciaddr⟩
    obtain ⟨k, hk⟩ := htypes.mp htype
    obtain ⟨hrequested, hhas, haddress⟩ := addressTaken_iff.mp hrequested
    obtain ⟨hserver, hhas', haddress'⟩ := addressTaken_iff.mp hserver
    refine ⟨⟨k, hk⟩, hrequested, hserver, hoverload, ?_, hmac, hxid, haddress, haddress', hciaddr,
      hhas, hhas'⟩
    simp [dhcpRequest, hk]
  · rintro ⟨htype, hrequested, hserver, hoverload, -, hmac, hxid, haddress, haddress', hciaddr,
      hhas, hhas'⟩
    exact ⟨htypes.mpr htype, addressTaken_iff.mpr ⟨hrequested, hhas, haddress⟩,
      addressTaken_iff.mpr ⟨hserver, hhas', haddress'⟩, hoverload, hmac, hxid, hciaddr⟩

/-- What is returned behind the loop. -/
def dhcpAnswer : Option (Bool × RadioDhcpRequest) → Bool × Option RadioDhcpRequest
  | none => (false, some .zero)
  | some (ended, r) =>
      if !ended ∨ (r.type ≠ 1 ∧ r.type ≠ 3) then (false, some .zero) else (true, some r)

/-- Behind the checks of the length and the header, the reader is its
loop. -/
theorem dhcpParse_loop (hlen : 240 ≤ p.length ∧ p.length ≤ radioDhcpMax) (hheader : DhcpHeader p)
    (out : RadioDhcpRequest) {found : Option (Bool × RadioDhcpRequest)}
    (hloop : dhcpOptionsFrom p p.length 240 (dhcpStart p) = some found) :
    radioDhcpParse (some p) p.length (some out) = some (dhcpAnswer found) := by
  obtain ⟨bad, hbad, hiff⟩ := dhcpHeaderBad_eq hlen.1
  have hgood : bad = false := hiff.mpr hheader
  unfold dhcpStart at hloop
  unfold radioDhcpParse
  simp only [hbad, hgood, if_neg (show ¬(p.length < 240 ∨ p.length > radioDhcpMax) by omega),
    readAt_le (show 28 + 6 ≤ p.length by omega), readAt_le (show 4 + 4 ≤ p.length by omega),
    readAt_le (show 12 + 4 ≤ p.length by omega), Option.bind_eq_bind, Option.bind_some,
    Bool.false_eq_true, if_false, hloop]
  match found with
  | none => rfl
  | some (ended, r) =>
      unfold dhcpAnswer
      dsimp only
      split <;> rfl

/-- The reader on a packet that it can take. -/
theorem dhcpParse_packet {fields : List Field} {k : Nat} {type : UInt8}
    (h : DhcpPacket p fields) (htype : type = 1 ∨ type = 3)
    (hvalues : values 53 fields = List.replicate k [0] ++ [[type]]) (out : RadioDhcpRequest) :
    radioDhcpParse (some p) p.length (some out) = some (true, some (dhcpRequest p fields)) := by
  have hr : (dhcpRequest p fields).type = type := by simp [dhcpRequest, hvalues]
  have hne : (dhcpRequest p fields).type ≠ 0 := by
    rw [hr]
    rcases htype with rfl | rfl <;> decide
  have htaken := (fieldsTaken_packet hne).mpr
    ⟨⟨k, by rw [hr]; exact hvalues⟩, h.requested, h.server, h.overload, rfl⟩
  have hloop := @options_read p _ fields 240 (dhcpStart p) rfl (read_iff.mpr h.area)
  rw [foldlM_takeField.mpr htaken, Option.map_some] at hloop
  rw [dhcpParse_loop h.length h.header out hloop, dhcpAnswer, hr, if_neg]
  rcases htype with rfl | rfl <;> decide

/-- And on any other. -/
theorem dhcpParse_other (h : ¬∃ fields k type, DhcpPacket p fields ∧ (type = 1 ∨ type = 3) ∧
    values 53 fields = List.replicate k [0] ++ [[type]]) (out : RadioDhcpRequest) :
    radioDhcpParse (some p) p.length (some out) = some (false, some .zero) := by
  by_cases hlen : 240 ≤ p.length ∧ p.length ≤ radioDhcpMax
  swap
  · unfold radioDhcpParse
    exact if_pos (by omega)
  obtain ⟨bad, hbad, hiff⟩ := dhcpHeaderBad_eq hlen.1
  cases bad with
  | true =>
      unfold radioDhcpParse
      dsimp only
      rw [if_neg (by omega), hbad]
      rfl
  | false =>
      have hheader : DhcpHeader p := hiff.mp rfl
      match hread : read (p.drop 240) with
      | none =>
          rcases options_unread (r := dhcpStart p) rfl hread with hloop | ⟨r, hloop⟩
          · exact dhcpParse_loop hlen hheader out hloop
          · rw [dhcpParse_loop hlen hheader out hloop, dhcpAnswer, if_pos (.inl rfl)]
      | some fields =>
          have hloop := @options_read p _ fields 240 (dhcpStart p) rfl hread
          rw [dhcpParse_loop hlen hheader out hloop]
          match htaken : fields.foldlM takeField (dhcpStart p) with
          | none => rfl
          | some r =>
              rw [Option.map_some, dhcpAnswer, if_pos]
              by_contra htype
              rw [not_or, not_and_or, not_not, not_not] at htype
              have hne : r.type ≠ 0 := by
                rintro hzero
                rw [hzero] at htype
                exact absurd htype.2 (by decide)
              obtain ⟨⟨k, hvalues⟩, hrequested, hserver, hoverload, -⟩ :=
                (fieldsTaken_packet hne).mp (foldlM_takeField.mp htaken)
              exact h ⟨fields, k, r.type,
                ⟨hlen, hheader, read_iff.mp hread, hrequested, hserver, hoverload⟩,
                htype.2, hvalues⟩

/-- What stands in a packet is determined. -/
theorem DhcpPacket.fields_eq {fields fields' : List Field} (h : DhcpPacket p fields)
    (h' : DhcpPacket p fields') : fields' = fields := by
  have hread := read_iff.mpr h.area
  rw [read_iff.mpr h'.area] at hread
  exact Option.some.inj hread

theorem not_meets_of_shadowed (out : RadioDhcpRequest) (h : DhcpShadowed p) :
    ¬DhcpMeets p out := by
  obtain ⟨fields, k, hpacket, hvalues⟩ := h
  rintro ⟨-, hother⟩
  have htaken : radioDhcpParse (some p) p.length (some out)
      = some (true, some (dhcpRequest p fields)) := by
    rcases hvalues with hvalues | hvalues
    · exact dhcpParse_packet hpacket (.inl rfl) hvalues out
    · exact dhcpParse_packet hpacket (.inr rfl) hvalues out
  have hmany : 2 ≤ (values 53 fields).length := by
    rcases hvalues with hvalues | hvalues
    · simp [hvalues]
    · simp [hvalues]
  have hnone : ¬∃ fields, DhcpWellFormed p fields := by
    rintro ⟨fields', hpacket', hone⟩
    rw [hpacket.fields_eq hpacket'] at hone
    rcases hone with hone | hone
    · simp [hone] at hmany
    · simp [hone] at hmany
  rw [hother hnone] at htaken
  cases htaken

/-- The reader on every packet: it never reads outside of it and returns,
and it does what it is for but for the packets that have message types of 0
in front of theirs. -/
theorem dhcp_meets_iff (p : List UInt8) (out : RadioDhcpRequest) :
    (∃ answer, radioDhcpParse (some p) p.length (some out) = some answer) ∧
      (DhcpMeets p out ↔ ¬DhcpShadowed p) := by
  constructor
  · by_cases h : ∃ fields k type, DhcpPacket p fields ∧ (type = 1 ∨ type = 3) ∧
        values 53 fields = List.replicate k [0] ++ [[type]]
    · obtain ⟨fields, k, type, hpacket, htype, hvalues⟩ := h
      exact ⟨_, dhcpParse_packet hpacket htype hvalues out⟩
    · exact ⟨_, dhcpParse_other h out⟩
  · refine ⟨fun hmeets hshadowed => not_meets_of_shadowed out hshadowed hmeets, fun h => ⟨?_, ?_⟩⟩
    · rintro fields ⟨hpacket, hvalues | hvalues⟩
      · exact @dhcpParse_packet p fields 0 1 hpacket (.inl rfl) hvalues out
      · exact @dhcpParse_packet p fields 0 3 hpacket (.inr rfl) hvalues out
    · intro hnone
      refine dhcpParse_other ?_ out
      rintro ⟨fields, k, type, hpacket, htype, hvalues⟩
      cases k with
      | zero =>
          refine hnone ⟨fields, hpacket, ?_⟩
          rcases htype with rfl | rfl
          · exact .inl hvalues
          · exact .inr hvalues
      | succ k =>
          refine h ⟨fields, k, hpacket, ?_⟩
          rcases htype with rfl | rfl
          · exact .inl hvalues
          · exact .inr hvalues

/-- A DISCOVER behind a message type 0. -/
def shadowedPacket : List UInt8 :=
  [1, 1, 6] ++ List.replicate 25 0 ++ [0x42, 0x42, 0x43, 0x44, 0x45, 0x46] ++
    List.replicate 202 0 ++ [0x63, 0x82, 0x53, 0x63] ++ [53, 1, 0, 53, 1, 1, 255]

/-- It is taken, with its two message types. -/
theorem shadowed_taken : ¬DhcpMeets shadowedPacket .zero := by
  refine not_meets_of_shadowed .zero ⟨[.option ⟨53, [0], by decide, by decide⟩,
    .option ⟨53, [1], by decide, by decide⟩], 0, ?_, .inl rfl⟩
  have hlength : shadowedPacket.length = 247 := by
    unfold shadowedPacket
    simp only [List.length_append, List.length_replicate, List.length_cons, List.length_nil]
  exact {
    length := by rw [hlength]; decide
    header := ⟨rfl, rfl, rfl, rfl, rfl, rfl, rfl, by decide⟩
    area := ⟨[], rfl⟩
    requested := .inl rfl
    server := .inl rfl
    overload := rfl }

end PicoBridge
