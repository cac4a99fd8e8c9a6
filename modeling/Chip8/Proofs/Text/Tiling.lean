import Chip8.Proofs.Cells
import Chip8.Proofs.Text.Dump
import Mathlib.Data.List.Chain

/-!
# The lines of a dump tile the address space

A dump is drawn from the end of memory or written from its start. Either way its lines stand for
stretches of rows that follow each other: a gap for all the zero rows in one place, if there are two
or more, and a row for itself otherwise. Only one list of lines does that.

* `Memory.ZeroRow`, `Memory.ZerosFor` : the rows that hold zeros only, and how many there are in
  one place.
* `Memory.Tiles` : the lines stand for all rows from one row on.
* `Memory.Tiles.unique` : **no two lists of lines stand for the same rows.**
* `Memory.tiles_collapse`, `Memory.tiles_linesFrom` : the lines that are drawn from the end, and
  those that are written from the start.
* `Memory.dump_inj`, `Memory.cell_of_gap` : two memories never look alike, and a gap hides zeros
  only.
* `Memory.ZeroRun`, `Memory.gap_mem_dump` : the gaps are the runs of zero rows that cannot be made
  longer.
* `Memory.Follows` : a line begins where the one before it ends, and not both show zeros only.
* `Memory.dump_tiles` : **the lines tile the address space**, and no others would.
-/

namespace Chip8

namespace Memory

open Dump

variable {m : Memory} {i : Nat} {lines : List Line}

/-! ### Rows of zeros -/

/-- There is a row with the number `i`, and all its cells are zero. -/
def ZeroRow (m : Memory) (i : Nat) : Prop :=
  i < rowCount ∧ ∀ k < rowSize, m.cell (rowSize * i + k) = 0

theorem isZero_row (i : Fin rowCount) : (m.row i).isZero = true ↔ m.ZeroRow i := by
  constructor
  · intro h
    refine ⟨i.isLt, fun k hk => ?_⟩
    rw [← m.cell_row i hk, Row.cell_of_isZero h]
  · rintro ⟨-, h⟩
    have hword : ∀ j : Fin wordsPerRow, Word.ofBytes (m.cell (rowSize * i + Word.size * j))
        (m.cell (rowSize * i + Word.size * j + 1)) = 0 := by
      intro j
      have hj : Word.size * j + 1 < rowSize := by
        simp only [rowSize, wordsPerRow, Word.size]
        omega
      rw [Nat.add_assoc _ _ 1, h _ hj, h _ (Nat.lt_of_succ_lt hj)]
      rfl
    simpa [Row.isZero, row] using hword

/-- The `n` rows from row number `i` on are zero, and the row behind them is not. -/
structure ZerosFor (m : Memory) (i n : Nat) : Prop where
  zero : ∀ j < n, m.ZeroRow (i + j)
  back : ¬m.ZeroRow (i + n)

namespace ZerosFor

variable {n k : Nat}

theorem nil (h : ¬m.ZeroRow i) : m.ZerosFor i 0 := ⟨nofun, h⟩

theorem cons (hi : m.ZeroRow i) (h : m.ZerosFor (i + 1) n) : m.ZerosFor i (n + 1) := by
  obtain ⟨hzero, hback⟩ := h
  refine ⟨fun j hj => ?_, Nat.add_right_comm i 1 n ▸ hback⟩
  cases j with
  | zero => exact hi
  | succ j => exact Nat.add_right_comm i 1 j ▸ hzero j (Nat.lt_of_succ_lt_succ hj)

theorem first (h : m.ZerosFor i n) (hn : 2 ≤ n) : m.ZeroRow i := h.zero 0 (Nat.lt_of_succ_lt hn)

theorem second (h : m.ZerosFor i n) (hn : 2 ≤ n) : m.ZeroRow (i + 1) := h.zero 1 hn

/-- Zeros that begin together end together. -/
theorem unique (h : m.ZerosFor i n) (h' : m.ZerosFor i k) : n = k := by
  rcases Nat.lt_trichotomy n k with hlt | heq | hlt
  · exact absurd (h'.zero n hlt) h.back
  · exact heq
  · exact absurd (h.zero k hlt) h'.back

end ZerosFor

/-! ### Lines and the rows they stand for -/

/-- The lines stand for all rows from row number `i` on. Two or more rows of zeros are one line,
which ends where the zeros do. -/
inductive Tiles (m : Memory) : Nat → List Line → Prop where
  | nil {i : Nat} (hi : i = rowCount) : Tiles m i []
  | row {i : Nat} {lines : List Line} (hi : i < rowCount)
      (halone : m.ZeroRow i → ¬m.ZeroRow (i + 1)) (h : Tiles m (i + 1) lines) :
      Tiles m i (.row (m.row ⟨i, hi⟩) :: lines)
  | gap {i n : Nat} {lines : List Line} (hn : 2 ≤ n) (hzeros : m.ZerosFor i n)
      (h : Tiles m (i + n) lines) :
      Tiles m i (.gap (rowSize * i) (rowSize * (i + n) - 1) :: lines)

/-- **No two lists of lines stand for the same rows.** -/
theorem Tiles.unique {others : List Line} (h : m.Tiles i lines) (h' : m.Tiles i others) :
    lines = others := by
  induction h generalizing others with
  | nil hi =>
    cases h' with
    | nil => rfl
    | row hi' => exact absurd hi (Nat.ne_of_lt hi')
    | gap hn hzeros => exact absurd hi (Nat.ne_of_lt (hzeros.first hn).1)
  | row hi halone _ ih =>
    cases h' with
    | nil hi' => exact absurd hi' (Nat.ne_of_lt hi)
    | row _ _ h' => rw [ih h']
    | gap hn hzeros => exact absurd (hzeros.second hn) (halone (hzeros.first hn))
  | gap hn hzeros _ ih =>
    cases h' with
    | nil hi => exact absurd hi (Nat.ne_of_lt (hzeros.first hn).1)
    | row hi halone => exact absurd (hzeros.second hn) (halone (hzeros.first hn))
    | gap _ hzeros' h' =>
      obtain rfl := hzeros.unique hzeros'
      rw [ih h']

/-! ### Drawn from the end -/

/-- One more row in front, drawn together with the first line or not. -/
theorem Tiles.cons (hi : i < rowCount) (h : m.Tiles (i + 1) lines) :
    m.Tiles i (Line.cons (m.row ⟨i, hi⟩) lines) := by
  have hzero : (m.row ⟨i, hi⟩).isZero = true ↔ m.ZeroRow i := isZero_row _
  cases h with
  | nil hlast => exact .row hi (fun _ hz => absurd hlast (Nat.ne_of_lt hz.1)) (.nil hlast)
  | row hi' halone h =>
    have hzero' : (m.row ⟨i + 1, hi'⟩).isZero = true ↔ m.ZeroRow (i + 1) := isZero_row _
    by_cases hboth : (m.row ⟨i, hi⟩).isZero && (m.row ⟨i + 1, hi'⟩).isZero
    · obtain ⟨hz, hz'⟩ := Bool.and_eq_true_iff.1 hboth
      have hnext : m.ZeroRow (i + 1) := hzero'.1 hz'
      have hzeros : m.ZerosFor (i + 1) 1 := (ZerosFor.nil (halone hnext)).cons hnext
      rw [Line.cons, if_pos hboth]
      exact .gap (Nat.le_refl 2) (hzeros.cons (hzero.1 hz)) h
    · rw [Line.cons, if_neg hboth]
      refine .row hi (fun hz hz' => hboth ?_) (.row hi' halone h)
      rw [hzero.2 hz, hzero'.2 hz']
      rfl
  | @gap _ n _ hn hzeros h =>
    by_cases hz : (m.row ⟨i, hi⟩).isZero
    · rw [Line.cons, if_pos hz, Nat.add_right_comm]
      rw [Nat.add_right_comm] at h
      exact .gap (Nat.le_succ_of_le hn) (hzeros.cons (hzero.1 hz)) h
    · rw [Line.cons, if_neg hz]
      exact .row hi (fun hz' => absurd (hzero.2 hz') hz) (.gap hn hzeros h)

theorem getElem_rows (hi : i < m.rows.length) :
    m.rows[i] = m.row ⟨i, List.length_ofFn (f := m.row) ▸ hi⟩ := List.getElem_ofFn hi

theorem tiles_collapse (hi : i ≤ rowCount) : m.Tiles i (collapse (m.rows.drop i)) := by
  have hlength : m.rows.length = rowCount := List.length_ofFn
  induction hi using Nat.decreasingInduction with
  | self =>
    rw [List.drop_of_length_le (Nat.le_of_eq hlength)]
    exact .nil rfl
  | of_succ i hi ih =>
    rw [List.drop_eq_getElem_cons (hlength ▸ hi), getElem_rows]
    exact .cons hi ih

theorem tiles_dump (m : Memory) : m.Tiles 0 m.dump := by
  rw [dump, ← List.drop_zero (l := m.rows)]
  exact tiles_collapse (Nat.zero_le _)

/-- One row of zeros by itself does not make a gap. -/
example : collapse [⟨0x000, .replicate 8 0⟩, ⟨0x010, .replicate 8 0⟩, ⟨0x020, .replicate 8 1⟩,
      ⟨0x030, .replicate 8 0⟩] =
    [.gap 0x000 0x01F, .row ⟨0x020, .replicate 8 1⟩, .row ⟨0x030, .replicate 8 0⟩] :=
  rfl

/-! ### Written from the start -/

/-- The rows that are counted are zero, and the next one is not. -/
theorem zerosFor_takeWhile (m : Memory) (i : Nat) :
    m.ZerosFor i ((m.rows.drop i).takeWhile Row.isZero).length := by
  generalize hrun : ((m.rows.drop i).takeWhile Row.isZero).length = run
  have hlength : m.rows.length = rowCount := List.length_ofFn
  have hfind : run = (m.rows.drop i).findIdx (fun r => !r.isZero) := by
    rw [← hrun, List.takeWhile_eq_take_findIdx_not, List.length_take,
      Nat.min_eq_left List.findIdx_le_length]
  constructor
  · intro j hj
    rw [hfind] at hj
    have hz := List.not_of_lt_findIdx hj
    rw [Bool.not_eq_false', List.getElem_drop, getElem_rows] at hz
    exact (isZero_row _).1 hz
  · intro hz
    have hlt : run < (m.rows.drop i).length := by
      rw [List.length_drop, hlength]
      exact Nat.lt_sub_of_add_lt (Nat.add_comm i run ▸ hz.1)
    have hnot : (!((m.rows.drop i)[run]).isZero) = true := by
      simp only [hfind]
      exact List.findIdx_getElem (p := fun r : Row => !r.isZero)
    rw [List.getElem_drop, getElem_rows, (isZero_row _).2 hz] at hnot
    cases hnot

theorem tiles_linesFrom (hi : i ≤ rowCount) : m.Tiles i (linesFrom m.rows i) := by
  have hlength : m.rows.length = rowCount := List.length_ofFn
  fun_induction linesFrom m.rows i with
  | case1 i h run hz ih =>
    have hzeros : m.ZerosFor i run := m.zerosFor_takeWhile i
    refine .gap hz.2 hzeros (ih ?_)
    have hlast := (hzeros.zero (run - 1) (by omega)).1
    omega
  | case2 i h run hz ih =>
    have hzeros : m.ZerosFor i run := m.zerosFor_takeWhile i
    rw [getElem_rows] at hz ⊢
    refine .row _ (fun hfirst hnext => ?_) (ih (by omega))
    -- the second zero row would have been counted, too
    refine hz ⟨(isZero_row _).2 hfirst, Nat.le_of_not_lt fun hrun => hzeros.back ?_⟩
    obtain h | h : run = 0 ∨ run = 1 := by omega
    · rwa [h]
    · rwa [h]
  | case3 i h => exact .nil (by omega)

/-- **The lines that are written from the start are those that are drawn from the end.** -/
theorem linesFrom_rows (m : Memory) : linesFrom m.rows 0 = m.dump :=
  (tiles_linesFrom (Nat.zero_le _)).unique m.tiles_dump

/-! ### What the lines cover -/

/-- A line covers the rows up to the one where the rest begins; if it shows zeros only, no zeros
come next. -/
theorem Tiles.uncons {l : Line} (h : m.Tiles i (l :: lines)) :
    l.start = rowSize * i ∧ ∃ j, i < j ∧ l.stop + 1 = rowSize * j ∧ m.Tiles j lines ∧
      ((∀ a, l.start ≤ a → a ≤ l.stop → m.cell a = 0) → m.ZeroRow i ∧ ¬m.ZeroRow j) := by
  cases h with
  | row hi halone h =>
    refine ⟨rfl, i + 1, Nat.lt_succ_self i, rfl, h, fun hz => ?_⟩
    have hrow : m.ZeroRow i :=
      ⟨hi, fun k hk => hz _ (Nat.le_add_right ..) (Nat.add_le_add_left (Nat.le_sub_one_of_lt hk) _)⟩
    exact ⟨hrow, halone hrow⟩
  | @gap _ n _ hn hzeros h =>
    have hpos : 0 < rowSize * (i + n) := Nat.mul_pos (by decide) (by omega)
    exact ⟨rfl, i + n, by omega, Nat.sub_add_cancel hpos, h,
      fun _ => ⟨hzeros.first hn, hzeros.back⟩⟩

/-- A line begins one past the end of the line before it, and they do not both show zeros only. -/
def Follows (m : Memory) (k l : Line) : Prop :=
  l.start = k.stop + 1 ∧ ¬∀ a, k.start ≤ a → a ≤ l.stop → m.cell a = 0

theorem Tiles.isChain (h : m.Tiles i lines) : lines.IsChain m.Follows := by
  induction lines generalizing i with
  | nil => exact .nil
  | cons k lines ih =>
    obtain ⟨hstart, j, hij, hstop, h, hzero⟩ := h.uncons
    refine List.isChain_cons.2 ⟨fun l hl => ?_, ih h⟩
    obtain ⟨rest, rfl⟩ := List.head?_eq_some_iff.1 hl
    obtain ⟨hstart', j', hij', hstop', -, hzero'⟩ := h.uncons
    have hnext : l.start = k.stop + 1 := hstart'.trans hstop.symm
    have hle : rowSize * j ≤ rowSize * j' := Nat.mul_le_mul_left _ (Nat.le_of_lt hij')
    have hle' : rowSize * i ≤ rowSize * j := Nat.mul_le_mul_left _ (Nat.le_of_lt hij)
    refine ⟨hnext, fun hz => ?_⟩
    have hk := hzero fun a ha ha' => hz a ha (by omega)
    have hl := hzero' fun a ha ha' => hz a (by omega) ha'
    exact hk.2 hl.1

theorem Tiles.start_head {l : Line} (h : m.Tiles i lines) (hl : lines.head? = some l) :
    l.start = rowSize * i := by
  obtain ⟨rest, rfl⟩ := List.head?_eq_some_iff.1 hl
  exact h.uncons.1

theorem Tiles.stop_getLast {l : Line} (h : m.Tiles i lines) (hl : lines.getLast? = some l) :
    l.stop = last := by
  induction lines generalizing i with
  | nil => cases hl
  | cons k lines ih =>
    obtain ⟨-, j, -, hstop, h, -⟩ := h.uncons
    cases lines with
    | nil =>
      cases hl
      cases h with
      | nil hj => exact Nat.add_right_cancel (hstop.trans (hj ▸ rfl))
    | cons k' lines => exact ih h (List.getLast?_cons_cons ▸ hl)

theorem Tiles.exists_of_lt (h : m.Tiles i lines) {a : Nat} (ha : rowSize * i ≤ a) (hlt : a < size) :
    ∃ l ∈ lines, l.start ≤ a ∧ a ≤ l.stop := by
  induction lines generalizing i with
  | nil =>
    cases h with
    | nil hi =>
      subst hi
      exact absurd ha (Nat.not_le_of_lt hlt)
  | cons l lines ih =>
    obtain ⟨hstart, j, -, hstop, h, -⟩ := h.uncons
    by_cases hal : a ≤ l.stop
    · exact ⟨l, List.mem_cons_self, hstart ▸ ha, hal⟩
    · obtain ⟨k, hk, hka⟩ := ih h (by omega)
      exact ⟨k, List.mem_cons_of_mem l hk, hka⟩

/-! ### Rows and gaps -/

/-- The `n` rows from row number `b` on are zero, at least two, and there are no more on either
side. -/
structure ZeroRun (m : Memory) (b n : Nat) : Prop extends m.ZerosFor b n where
  two_le : 2 ≤ n
  front : ∀ k, k + 1 = b → ¬m.ZeroRow k

/-- The cells from `start` to `stop` are those of a run of zero rows. -/
def IsGap (m : Memory) (start stop : Nat) : Prop :=
  ∃ b n, m.ZeroRun b n ∧ start = rowSize * b ∧ stop = rowSize * (b + n) - 1

theorem Tiles.exists_row (h : m.Tiles i lines) {r : Row} (hr : .row r ∈ lines) :
    ∃ j, r = m.row j := by
  induction h with
  | nil => cases hr
  | row hi halone h ih =>
    rcases List.mem_cons.1 hr with hr | hr
    · exact ⟨_, Line.row.inj hr⟩
    · exact ih hr
  | gap _ _ _ ih =>
    rcases List.mem_cons.1 hr with hr | hr
    · cases hr
    · exact ih hr

/-- **The gaps are the runs of zero rows that cannot be made longer**, if the lines do not begin in
the middle of one. -/
theorem Tiles.gap_mem_iff (h : m.Tiles i lines)
    (hfront : ∀ k, k + 1 = i → m.ZeroRow i → ¬m.ZeroRow k) {start stop : Nat} :
    .gap start stop ∈ lines ↔
      ∃ b n, i ≤ b ∧ m.ZeroRun b n ∧ start = rowSize * b ∧ stop = rowSize * (b + n) - 1 := by
  induction h with
  | @nil i hi =>
    refine ⟨nofun, ?_⟩
    rintro ⟨b, n, hb, hrun, -⟩
    have hlt := (hrun.first hrun.two_le).1
    omega
  | @row i lines hi halone h ih =>
    have hfront : ∀ k, k + 1 = i + 1 → m.ZeroRow (i + 1) → ¬m.ZeroRow k := by
      intro k hk hz hz'
      obtain rfl := Nat.succ.inj hk
      exact halone hz' hz
    rw [List.mem_cons, or_iff_right nofun, ih hfront]
    constructor
    · rintro ⟨b, n, hb, hrun, hrange⟩
      exact ⟨b, n, Nat.le_of_succ_le hb, hrun, hrange⟩
    · rintro ⟨b, n, hb, hrun, hrange⟩
      have hne : i ≠ b := by
        rintro rfl
        exact halone (hrun.first hrun.two_le) (hrun.second hrun.two_le)
      exact ⟨b, n, Nat.lt_of_le_of_ne hb hne, hrun, hrange⟩
  | @gap i n lines hn hzeros h ih =>
    rw [List.mem_cons, ih fun _ _ hz => absurd hz hzeros.back, Line.gap.injEq]
    constructor
    · rintro (⟨rfl, rfl⟩ | ⟨b, k, hb, hrun, hrange⟩)
      · have hrun : m.ZeroRun i n := ⟨hzeros, hn, fun k hk => hfront k hk (hzeros.first hn)⟩
        exact ⟨i, n, Nat.le_refl i, hrun, rfl, rfl⟩
      · exact ⟨b, k, Nat.le_of_add_right_le hb, hrun, hrange⟩
    · rintro ⟨b, k, hb, hrun, hstart, hstop⟩
      by_cases hbi : b = i
      · subst hbi
        obtain rfl := hzeros.unique hrun.toZerosFor
        exact .inl ⟨hstart, hstop⟩
      · -- a run that begins among these rows could be made longer
        refine .inr ⟨b, k, Nat.le_of_not_lt fun hlt => ?_, hrun, hstart, hstop⟩
        refine hrun.front (i + (b - 1 - i)) (by omega) (hzeros.zero _ (by omega))

theorem gap_mem_dump {start stop : Nat} : .gap start stop ∈ m.dump ↔ m.IsGap start stop := by
  rw [m.tiles_dump.gap_mem_iff fun _ hk => absurd hk (Nat.succ_ne_zero _)]
  simp only [IsGap, Nat.zero_le, true_and]

/-- **A gap hides zeros only.** -/
theorem cell_of_gap {start stop a : Nat} (h : .gap start stop ∈ m.dump) (hstart : start ≤ a)
    (hstop : a ≤ stop) : m.cell a = 0 := by
  obtain ⟨b, n, hrun, rfl, rfl⟩ := gap_mem_dump.1 h
  have hpos : 0 < b + n := Nat.lt_of_lt_of_le (Nat.lt_of_succ_lt hrun.two_le) (Nat.le_add_left n b)
  have hlt : a / rowSize < b + n :=
    Nat.div_lt_of_lt_mul (Nat.lt_of_le_sub_one (Nat.mul_pos (by decide) hpos) hstop)
  have hle : b ≤ a / rowSize := (Nat.le_div_iff_mul_le (by decide)).2 (Nat.mul_comm .. ▸ hstart)
  have hzero := (hrun.zero (a / rowSize - b) (by omega)).2 (a % rowSize) (Nat.mod_lt a (by decide))
  rwa [Nat.add_sub_cancel' hle, Nat.div_add_mod] at hzero

theorem dump_inj {n : Memory} : m.dump = n.dump ↔ m = n := by
  constructor
  · intro h
    refine ext_cell fun a ha => ?_
    obtain ⟨l, hl, hstart, hstop⟩ := m.tiles_dump.exists_of_lt (Nat.zero_le a) ha
    have hl' : l ∈ n.dump := h ▸ hl
    cases l with
    | row r =>
      obtain ⟨i, rfl⟩ := m.tiles_dump.exists_row hl
      obtain ⟨j, hj⟩ := n.tiles_dump.exists_row hl'
      obtain rfl : i = j :=
        Fin.ext (Nat.eq_of_mul_eq_mul_left (by decide) (congrArg Row.start hj))
      obtain ⟨k, rfl⟩ := Nat.exists_eq_add_of_le hstart
      have hk : k < rowSize := Nat.lt_succ_of_le (Nat.le_of_add_le_add_left hstop)
      exact (m.cell_row i hk).symm.trans ((congrArg (·.cell k) hj).trans (n.cell_row i hk))
    | gap start stop => rw [cell_of_gap hl hstart hstop, cell_of_gap hl' hstart hstop]
  · rintro rfl
    rfl

/-! ### Memories of zeros -/

theorem cell_zeros (a : Nat) : (⟨.replicate size 0⟩ : Memory).cell a = 0 := by
  rw [cell, Vector.getElem?_replicate]
  split <;> rfl

/-- A memory of zeros is shown as one gap. -/
theorem dump_zeros : (⟨.replicate size 0⟩ : Memory).dump = [.gap 0x000 0xFFF] := by
  have hzeros : (⟨.replicate size 0⟩ : Memory).ZerosFor 0 rowCount :=
    { zero j hj := ⟨(Nat.zero_add j).symm ▸ hj, fun k _ => cell_zeros _⟩
      back hz := Nat.lt_irrefl _ hz.1 }
  exact (tiles_dump _).unique (.gap (by decide) hzeros (.nil rfl))

/-- Zeros behind one byte. -/
def speck : Memory := blit ⟨.replicate size 0⟩ 0 [1]

theorem cell_speck (a : Nat) : speck.cell a = if a = 0 then 1 else 0 := by
  by_cases ha : a = 0
  · rw [if_pos ha, ha, speck, cell, getElem?_blit, if_pos (by decide)]
    rfl
  · rw [if_neg ha, speck, cell_blit_of_lt (Or.inr (Nat.one_le_iff_ne_zero.2 ha)), cell_zeros]

theorem zeroRow_speck {i : Nat} : speck.ZeroRow i ↔ i < rowCount ∧ i ≠ 0 := by
  refine and_congr_right fun _ => ⟨?_, fun hi k _ => ?_⟩
  · rintro h rfl
    have hbyte : speck.cell 0 = 0 := h 0 (by decide)
    rw [cell_speck, if_pos rfl] at hbyte
    exact absurd hbyte (by decide)
  · have hpos : 0 < rowSize * i := Nat.mul_pos (by decide) (Nat.pos_of_ne_zero hi)
    rw [cell_speck, if_neg (by omega)]

/-! ### All lines -/

/-- A line is a gap or one row, and the texts of both are equally wide. -/
theorem text_of_mem {l : Line} (h : l ∈ m.dump) :
    l.text.length = 73 ∧ (l.text = (Line.gap l.start l.stop).text ↔ m.IsGap l.start l.stop) ∧
      (¬m.IsGap l.start l.stop →
        16 ∣ l.start ∧ l.stop = l.start + 15 ∧
          l.text = range l.start l.stop ++ String.join (.ofFn fun j : Fin 8 => " " ++ Hex.word
            (Word.ofBytes (m.cell (l.start + 2 * j)) (m.cell (l.start + 2 * j + 1))).toNat)) := by
  rw [Line.text_inj]
  cases l with
  | row r =>
    obtain ⟨i, rfl⟩ := m.tiles_dump.exists_row h
    have hi : i.val < 256 := i.isLt
    have hstart : (m.row i).start = 16 * i := rfl
    have hstop : (m.row i).stop = 16 * i + 15 := rfl
    have hwidth : (Line.row (m.row i)).text.length = 73 :=
      length_text_row (by omega) List.length_ofFn
    refine ⟨hwidth, ⟨nofun, ?_⟩, fun _ => ⟨⟨i, rfl⟩, rfl, ?_⟩⟩
    · -- one row is too short for a run
      rintro ⟨b, n, hrun, hb, he⟩
      have htwo := hrun.two_le
      simp only [Line.start, Line.stop, hstart, hstop, show rowSize = 16 from rfl] at hb he
      omega
    · rw [Line.text, row, List.map_ofFn]
      rfl
  | gap start stop =>
    have hgap : m.IsGap start stop := gap_mem_dump.1 h
    have hwidth : (Line.gap start stop).text.length = 73 := by
      obtain ⟨b, n, hrun, rfl, rfl⟩ := hgap
      have htwo := hrun.two_le
      have hlast : b + (n - 1) < rowCount := (hrun.zero (n - 1) (by omega)).1
      have hrows : b + n ≤ rowCount := by omega
      have hstart : rowSize * b ≤ rowSize * (b + n) := Nat.mul_le_mul_left _ (Nat.le_add_right b n)
      have hstop : rowSize * (b + n) ≤ 0x1000 := Nat.mul_le_mul_left rowSize hrows
      exact length_text_gap (by omega) (by omega)
    exact ⟨hwidth, iff_of_true rfl hgap, fun hnot => absurd hgap hnot⟩

/-- **The lines of a dump tile the address space.** Whether they are drawn from the end or written
from the start, the first begins with the first cell, the last ends with the last one, and each
begins one past the end of the one before; no two lines that follow each other show zeros only. The
gaps are the runs of two or more zero rows that cannot be made longer. A line that is not the text
of a gap shows one row, with its eight words in order, and all lines are equally wide. -/
theorem dump_tiles (m : Memory) :
    linesFrom m.rows 0 = m.dump ∧
      m.dump.head?.map Line.start = some 0x0000 ∧ m.dump.getLast?.map Line.stop = some 0x0FFF ∧
      m.dump.IsChain m.Follows ∧
      (∀ start stop, .gap start stop ∈ m.dump ↔ m.IsGap start stop) ∧
      ∀ l ∈ m.dump, l.text.length = 73 ∧
        (l.text = (Line.gap l.start l.stop).text ↔ m.IsGap l.start l.stop) ∧
        (¬m.IsGap l.start l.stop →
          16 ∣ l.start ∧ l.stop = l.start + 15 ∧
            l.text = range l.start l.stop ++ String.join (.ofFn fun j : Fin 8 => " " ++ Hex.word
              (Word.ofBytes (m.cell (l.start + 2 * j)) (m.cell (l.start + 2 * j + 1))).toNat)) := by
  have hne : m.dump ≠ [] := by
    obtain ⟨l, hl, -⟩ := m.tiles_dump.exists_of_lt (Nat.zero_le 0) (by decide)
    exact List.ne_nil_of_mem hl
  have hfirst := List.head?_eq_some_head hne
  have hfinal := List.getLast?_eq_some_getLast hne
  refine ⟨m.linesFrom_rows, ?_, ?_, m.tiles_dump.isChain, fun _ _ => gap_mem_dump,
    fun l => text_of_mem⟩
  · rw [hfirst, Option.map_some, m.tiles_dump.start_head hfirst]
    rfl
  · rw [hfinal, Option.map_some, m.tiles_dump.stop_getLast hfinal]
    rfl

/-- The row with the byte, and all others in one gap. -/
theorem dump_tiles_speck :
    .gap 0x010 0xFFF ∈ speck.dump ∧ ¬speck.IsGap 0x000 0x00F ∧
      ∃ l ∈ speck.dump, l.start = 0x000 ∧ l.stop = 0x00F ∧ l.text.length = 73 := by
  obtain ⟨-, hhead, -, -, hgap, htext⟩ := dump_tiles speck
  have hrun : speck.ZeroRun 1 255 :=
    { two_le := by decide
      zero j hj := zeroRow_speck.2 ⟨Nat.add_comm 1 j ▸ Nat.succ_lt_succ hj, by omega⟩
      front k hk hz := (zeroRow_speck.1 hz).2 (Nat.succ.inj hk)
      back hz := Nat.lt_irrefl _ hz.1 }
  have hnot (stop : Nat) : ¬speck.IsGap 0x000 stop := by
    rintro ⟨b, n, hrun, hb, -⟩
    have hz := zeroRow_speck.1 (hrun.first hrun.two_le)
    exact hz.2 ((Nat.mul_eq_zero.1 hb.symm).resolve_left (by decide))
  obtain ⟨l, hl, hstart⟩ := Option.map_eq_some_iff.1 hhead
  have hmem : l ∈ speck.dump := List.mem_of_mem_head? hl
  obtain ⟨hlength, -, hrow⟩ := htext l hmem
  obtain ⟨-, hstop, -⟩ := hrow (hstart ▸ hnot _)
  rw [hstart] at hstop
  exact ⟨(hgap _ _).2 ⟨1, 255, hrun, rfl, rfl⟩, hnot _, l, hmem, hstart, hstop, hlength⟩

end Memory

end Chip8
