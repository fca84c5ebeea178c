/-
NOR flash under power cuts: a block of byte cells that an erase sets to
all ones and a program can only clear bits of, and the discipline that
makes a record in such a block appear all at once.

# Cuts

`cutImage ops n w m` is what a sequence of operations leaves of the block
`m` when power is lost after `n` complete operations and, if `w` is
given, inside the next one: a program has then left uncleared whatever
bits `w` has set, so that any subset of its 1-to-0 changes is some `w`,
and an erase has left `w` itself.

# Publishing

`Publishes` is the two-step discipline: erase, program everything but
the held-back cells in any order and number of programs that leave those
erased, and only then program the held-back cells. `publish_cut_cases`
says what a reader of the held-back cells can rely on: at every cut the
block is the old one, what a torn erase left, an image whose held-back
cells are not yet the record's, or the record.
-/
import Mathlib.Tactic

namespace Lib.NorFlash

variable {ι : Type*}

-- ========================================================== operations

/-- An operation on the block: erase all of it, or program a region. -/
inductive Op (ι : Type*)
  | erase
  | program (region : ι → Bool) (data : ι → UInt8)

/-- A completed operation. -/
def Op.run : Op ι → (ι → UInt8) → ι → UInt8
  | .erase, _ => fun _ => 0xff
  | .program region data, m => fun i => if region i then m i &&& data i else m i

/-- An operation cut short. -/
def Op.torn (w : ι → UInt8) : Op ι → (ι → UInt8) → ι → UInt8
  | .erase, _ => w
  | .program region data, m => fun i => if region i then m i &&& (data i ||| w i) else m i

/-- A sequence of completed operations. -/
def run (ops : List (Op ι)) (m : ι → UInt8) : ι → UInt8 :=
  ops.foldl (fun m op => op.run m) m

/-- What a sequence leaves when power is lost after `n` operations and,
with `some w`, inside the next one. -/
def cutImage : List (Op ι) → Nat → Option (ι → UInt8) → (ι → UInt8) → ι → UInt8
  | [], _, _, m => m
  | _ :: _, 0, none, m => m
  | op :: _, 0, some w, m => op.torn w m
  | op :: ops, n + 1, w, m => cutImage ops n w (op.run m)

@[simp] theorem run_nil (m : ι → UInt8) : run [] m = m := rfl

@[simp] theorem run_cons (op : Op ι) (ops : List (Op ι)) (m : ι → UInt8) :
    run (op :: ops) m = run ops (op.run m) := rfl

theorem run_append (ops ops' : List (Op ι)) (m : ι → UInt8) :
    run (ops ++ ops') m = run ops' (run ops m) :=
  List.foldl_append

-- ============================================================ the bits

theorem ones_and (x : UInt8) : 0xff &&& x = x :=
  UInt8.neg_one_and

theorem ones_or (x : UInt8) : 0xff ||| x = 0xff :=
  UInt8.neg_one_or

/-- Bits a program leaves uncleared do not hide the bits it programs. -/
theorem or_and_cancel (d w : UInt8) : (d ||| w) &&& d = d := by
  rw [← UInt8.toBitVec_inj]
  ext i hi
  simp only [UInt8.toBitVec_and, UInt8.toBitVec_or, BitVec.getElem_and, BitVec.getElem_or]
  cases d.toBitVec[i] <;> simp

-- ============================================================ publishing

/-- A program of the record that leaves the held-back cells erased. -/
def HoldsBack (data : ι → UInt8) (held : ι → Prop) (op : Op ι) : Prop :=
  ∃ region d, op = .program region d ∧
    ∀ i, region i = true → (held i → d i = 0xff) ∧ (¬held i → d i = data i)

/-- The operations after the erase and before the last program: they
hold back the held-back cells and cover every other cell. -/
structure Publishes (data : ι → UInt8) (held : ι → Prop) (body : List (Op ι)) : Prop where
  writes : ∀ op ∈ body, HoldsBack data held op
  covers : ∀ i, ¬held i → ∃ region d, .program region d ∈ body ∧ region i = true

/-- A block on the way to the record: the held-back cells are erased and
every other cell still has all the record's bits. -/
def OnTheWay (data : ι → UInt8) (held : ι → Prop) (m : ι → UInt8) : Prop :=
  (∀ i, held i → m i = 0xff) ∧ ∀ i, ¬held i → m i &&& data i = data i

variable {data : ι → UInt8} {held : ι → Prop} {body : List (Op ι)}

theorem onTheWay_erased : OnTheWay data held fun _ => 0xff :=
  ⟨fun _ _ => rfl, fun i _ => ones_and (data i)⟩

/-- A program of the body, complete or cut short, keeps the block on the
way: `w` clears fewer bits than the program, never others. -/
theorem onTheWay_program {m : ι → UInt8} (hm : OnTheWay data held m) {region : ι → Bool}
    {d : ι → UInt8}
    (hd : ∀ i, region i = true → (held i → d i = 0xff) ∧ (¬held i → d i = data i))
    (w : ι → UInt8) : OnTheWay data held ((Op.program region d).torn w m) := by
  refine ⟨fun i hi => ?_, fun i hi => ?_⟩
  · simp only [Op.torn]
    split
    next hr =>
      rw [hm.1 i hi, (hd i hr).1 hi, ones_or, ones_and]
    next => exact hm.1 i hi
  · simp only [Op.torn]
    split
    next hr =>
      rw [(hd i hr).2 hi, UInt8.and_assoc, or_and_cancel]
      exact hm.2 i hi
    next => exact hm.2 i hi

/-- A complete program is one cut short that left no bit uncleared. -/
theorem run_program_eq (region : ι → Bool) (d m : ι → UInt8) :
    (Op.program region d).run m = (Op.program region d).torn (fun _ => 0) m := by
  funext i
  simp [Op.run, Op.torn]

theorem onTheWay_run {m : ι → UInt8} (hm : OnTheWay data held m)
    (hbody : ∀ op ∈ body, HoldsBack data held op) :
    OnTheWay data held (run body m) := by
  induction body generalizing m with
  | nil => exact hm
  | cons op body ih =>
      obtain ⟨region, d, rfl, hd⟩ := hbody op List.mem_cons_self
      have hstep : OnTheWay data held ((Op.program region d).run m) := by
        rw [run_program_eq]
        exact onTheWay_program hm hd _
      exact ih hstep fun op hop => hbody op (List.mem_cons_of_mem _ hop)

/-- Once programmed, a cell keeps the record's byte. -/
theorem run_covers {m : ι → UInt8} {i : ι} (hi : ¬held i) (hm : OnTheWay data held m)
    (hbody : ∀ op ∈ body, HoldsBack data held op)
    (hcov : m i = data i ∨ ∃ region d, .program region d ∈ body ∧ region i = true) :
    run body m i = data i := by
  induction body generalizing m with
  | nil =>
      rcases hcov with h | ⟨_, _, hmem, _⟩
      · exact h
      · cases hmem
  | cons op body ih =>
      obtain ⟨region, d, rfl, hd⟩ := hbody op List.mem_cons_self
      have hstep : OnTheWay data held ((Op.program region d).run m) := by
        rw [run_program_eq]
        exact onTheWay_program hm hd _
      refine ih hstep (fun op hop => hbody op (List.mem_cons_of_mem _ hop)) ?_
      by_cases hr : region i = true
      · left
        simp only [Op.run, hr, if_true]
        rw [(hd i hr).2 hi]
        exact hm.2 i hi
      · rcases hcov with h | ⟨region', d', hmem, hr'⟩
        · left
          simpa [Op.run, hr] using h
        · rcases List.mem_cons.mp hmem with heq | hmem
          · cases heq
            exact absurd hr' hr
          · exact .inr ⟨region', d', hmem, hr'⟩

/-- The block before the last program: the record with its held-back
cells still erased. -/
theorem publishes_run (h : Publishes data held body) {i : ι} (hi : ¬held i) :
    run body (fun _ => 0xff) i = data i :=
  run_covers hi onTheWay_erased h.writes (.inr (h.covers i hi))

/-- The last program, complete or cut short, over the record with its
held-back cells erased. -/
theorem torn_publish {m : ι → UInt8} (hm : ∀ i, ¬held i → m i = data i) (region : ι → Bool)
    (w : ι → UInt8) {i : ι} (hi : ¬held i) :
    (Op.program region data).torn w m i = data i := by
  simp only [Op.torn]
  split
  · rw [hm i hi, UInt8.and_comm, or_and_cancel]
  · exact hm i hi

/-- The complete sequence leaves the record. -/
theorem publish_run (h : Publishes data held body) {region : ι → Bool}
    (hregion : ∀ i, held i → region i = true) (m : ι → UInt8) :
    run (.erase :: (body ++ [.program region data])) m = data := by
  have hway := onTheWay_run onTheWay_erased h.writes
  simp only [run_cons, run_append, run_nil, Op.run]
  funext i
  by_cases hi : held i
  · rw [if_pos (hregion i hi), hway.1 i hi, ones_and]
  · rw [publishes_run h hi]
    split
    · exact UInt8.and_self
    · rfl

/-- Inside the body every cut leaves the held-back cells erased. -/
theorem body_cut {m : ι → UInt8} (hm : OnTheWay data held m)
    (hbody : ∀ op ∈ body, HoldsBack data held op)
    (last : Op ι) (n : Nat) (w : Option (ι → UInt8)) (hn : n < body.length) :
    OnTheWay data held (cutImage (body ++ [last]) n w m) := by
  induction body generalizing m n with
  | nil => cases hn
  | cons op body ih =>
      obtain ⟨region, d, rfl, hd⟩ := hbody op List.mem_cons_self
      cases n with
      | zero =>
          cases w with
          | none => exact hm
          | some w => exact onTheWay_program hm hd w
      | succ n =>
          refine ih ?_ (fun op hop => hbody op (List.mem_cons_of_mem _ hop)) n
            (Nat.lt_of_succ_lt_succ hn)
          rw [run_program_eq]
          exact onTheWay_program hm hd _

/-- A cell that already has the byte every program writes there keeps it
at every cut. -/
theorem cutImage_keeps {ops : List (Op ι)} {i : ι} {x : UInt8}
    (hops : ∀ op ∈ ops, ∃ region d, op = .program region d ∧ (region i = true → d i = x))
    (n : Nat) (w : Option (ι → UInt8)) {m : ι → UInt8} (hm : m i = x) :
    cutImage ops n w m i = x := by
  have hkeep : ∀ op ∈ ops, ∀ w : ι → UInt8, ∀ m : ι → UInt8, m i = x →
      op.torn w m i = x := by
    intro op hop w m hm
    obtain ⟨region, d, rfl, hd⟩ := hops op hop
    simp only [Op.torn]
    split
    next hr => rw [hm, hd hr, UInt8.and_comm, or_and_cancel]
    next => exact hm
  induction ops generalizing m n with
  | nil => exact hm
  | cons op ops ih =>
      have hops' : ∀ op ∈ ops, ∃ region d,
          op = .program region d ∧ (region i = true → d i = x) :=
        fun op hop => hops op (List.mem_cons_of_mem _ hop)
      have hkeep' : ∀ op ∈ ops, ∀ w : ι → UInt8, ∀ m : ι → UInt8, m i = x →
          op.torn w m i = x := fun op hop => hkeep op (List.mem_cons_of_mem _ hop)
      cases n with
      | zero =>
          cases w with
          | none => exact hm
          | some w => exact hkeep op List.mem_cons_self w m hm
      | succ n =>
          refine ih hops' n ?_ hkeep'
          obtain ⟨region, d, rfl, hd⟩ := hops op List.mem_cons_self
          rw [run_program_eq]
          exact hkeep _ List.mem_cons_self _ m hm

/-- From the end of the body on, a cut is a cut of the last program. -/
theorem cutImage_append (ops ops' : List (Op ι)) (n : Nat) (w : Option (ι → UInt8))
    (m : ι → UInt8) : cutImage (ops ++ ops') (ops.length + n) w m
      = cutImage ops' n w (run ops m) := by
  induction ops generalizing m with
  | nil => simp
  | cons op ops ih =>
      rw [List.length_cons, Nat.add_right_comm]
      exact ih (op.run m)

/-- A cut past the end is no cut. -/
theorem cutImage_all {ops : List (Op ι)} {n : Nat} (hn : ops.length ≤ n)
    (w : Option (ι → UInt8)) (m : ι → UInt8) : cutImage ops n w m = run ops m := by
  induction ops generalizing n m with
  | nil => rfl
  | cons op ops ih =>
      obtain ⟨k, rfl⟩ := Nat.exists_eq_add_of_le' (Nat.le_trans (Nat.succ_pos _) hn)
      exact ih (Nat.le_of_succ_le_succ hn) (op.run m)

/-- What a cut of a publishing sequence can leave: the old block, what a
torn erase left, a block whose held-back cells are not the record's, or
the record. -/
theorem publish_cut_cases (h : Publishes data held body) {region : ι → Bool}
    (hregion : ∀ i, held i → region i = true) (hmark : ∃ i, held i ∧ data i ≠ 0xff)
    (n : Nat) (w : Option (ι → UInt8)) (m : ι → UInt8) :
    let image := cutImage (.erase :: (body ++ [.program region data])) n w m
    (n = 0 ∧ w = none ∧ image = m) ∨ (n = 0 ∧ w = some image)
      ∨ (∃ i, held i ∧ image i ≠ data i) ∨ image = data := by
  obtain ⟨mark, hheld, hne⟩ := hmark
  have herased : ∀ image : ι → UInt8, image mark = 0xff → ∃ i, held i ∧ image i ≠ data i :=
    fun image hm => ⟨mark, hheld, fun heq => hne (heq.symm.trans hm)⟩
  cases n with
  | zero =>
      cases w with
      | none => exact .inl ⟨rfl, rfl, rfl⟩
      | some w => exact .inr (.inl ⟨rfl, rfl⟩)
  | succ n =>
      refine .inr (.inr ?_)
      show (∃ i, held i ∧
          cutImage (body ++ [.program region data]) n w (fun _ => 0xff) i ≠ data i)
        ∨ cutImage (body ++ [.program region data]) n w (fun _ => 0xff) = data
      have hway := onTheWay_run onTheWay_erased h.writes
      by_cases hn : n < body.length
      · have := body_cut onTheWay_erased h.writes (.program region data) n w hn
        exact .inl (herased _ (this.1 mark hheld))
      · obtain ⟨k, rfl⟩ := Nat.exists_eq_add_of_le (Nat.le_of_not_lt hn)
        rw [cutImage_append]
        cases k with
        | succ k =>
            right
            have := publish_run h hregion fun _ => 0xff
            rw [run_cons, run_append] at this
            exact this
        | zero =>
            cases w with
            | none => exact .inl (herased _ (hway.1 mark hheld))
            | some w =>
                by_cases hall : ∀ i, held i →
                    (Op.program region data).torn w (run body fun _ => 0xff) i = data i
                · right
                  funext i
                  by_cases hi : held i
                  · exact hall i hi
                  · exact torn_publish (fun i hi => publishes_run h hi) region w hi
                · left
                  obtain ⟨i, hi⟩ := not_forall.mp hall
                  exact ⟨i, Classical.not_imp.mp hi⟩

end Lib.NorFlash
