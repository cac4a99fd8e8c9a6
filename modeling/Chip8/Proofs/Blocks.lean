import Chip8.Memory.Access
import Chip8.Proofs.Cells

/-!
# Blocks of cells against single cells

A word, a block that is read and a block that is written are each checked once, by different
comparisons. They are accepted and refused as their cells are when they are accessed one by one, and
with the error of the first cell that is refused.

* `Memory.stop_eq` : saturation does not matter for the check.
* `Word.read_eq`, `Word.toNat_read` : a word is two bytes, in any list of bytes.
* `Memory.slice_eq_mapM` : **a block is read as its cells are.**
* `Memory.run_putEach` : writes one by one, which leave what fits when they are refused.
* `Memory.run_copy_eq_atomically` : **a block is written as its cells are, or not at all.**
* `Memory.blocks_eq_cells` : words and blocks, read and written, with the blocks of no cells.
-/

namespace Chip8

/-- A word is read as its two bytes are, the high one first. -/
theorem Word.read_eq (cells : Array Byte) (p : Nat) :
    read cells p = do return ofBytes (← Byte.read cells p) (← Byte.read cells (p + 1)) := by
  unfold read Byte.read
  by_cases hnext : p + 1 < cells.size
  · rw [dif_pos hnext, Array.getElem?_eq_getElem (Nat.lt_of_succ_lt hnext),
      Array.getElem?_eq_getElem hnext]
    rfl
  · rw [dif_neg hnext, Array.getElem?_eq_none (Nat.le_of_not_lt hnext)]
    by_cases hp : p < cells.size
    · have hlast : max p cells.size = p + 1 := by omega
      rw [Array.getElem?_eq_getElem hp, hlast]
      rfl
    · rw [Array.getElem?_eq_none (Nat.le_of_not_lt hp), Nat.max_eq_left (Nat.le_of_not_lt hp)]
      rfl

/-- The number that is read is the one that the two bytes make up, the high one first. -/
theorem Word.toNat_read (cells : Array Byte) (p : Nat) :
    (read cells p).map BitVec.toNat = do
      return 256 * (← Byte.read cells p).toNat + (← Byte.read cells (p + 1)).toNat := by
  rw [read_eq]
  cases Byte.read cells p with
  | error e => rfl
  | ok hi =>
    cases Byte.read cells (p + 1) with
    | error e => rfl
    | ok lo => exact congrArg Except.ok (toNat_ofBytes hi lo)

namespace Memory

variable (m : Memory) {a n : Nat} {b : Byte} {bs : List Byte}

theorem read_eq (a : Nat) : m.read a = Byte.read m.cells.toArray a := by
  unfold read Byte.read
  split <;> simp_all

theorem read_of_lt (ha : a < size) : m.read a = .ok (m.cell a) :=
  (dif_pos ha).trans (congrArg _ (m.getElem_cells ha))

theorem read_of_not_lt (ha : ¬a < size) : m.read a = .error (.outOfBounds a) := dif_neg ha

/-! ### The check of a block -/

/-- A sum that saturates is behind the last cell, as the sum itself is. -/
theorem stop_eq (a n : Nat) :
    stop a n = if a + n ≤ size then .ok (a + n) else .error (.outOfBounds (max a size)) := by
  have hsize : size < 0xFFFFFFFFFFFFFFFF := by decide
  unfold stop saturatingAdd
  by_cases h : a + n ≤ size
  · rw [if_pos h, Nat.min_eq_left (by omega), if_neg (Nat.not_lt_of_le h)]
  · rw [if_neg h, if_pos (by omega)]

theorem slice_eq_stop (a n : Nat) :
    m.slice a n = (stop a n).map fun e => (m.cells.toList.take e).drop a := by
  rw [stop_eq]
  by_cases h : a + n ≤ size
  · rw [if_pos h, slice_of_le m h]
    rfl
  · rw [if_neg h, slice, dif_neg h]
    rfl

/-! ### Reading -/

theorem slice_zero (a : Nat) :
    m.slice a 0 = if a ≤ size then .ok [] else .error (.outOfBounds a) := by
  unfold slice
  by_cases ha : a ≤ size
  · rw [dif_pos (show a + 0 ≤ size from ha), if_pos ha, List.ofFn_zero]
  · rw [dif_neg (show ¬a + 0 ≤ size from ha), if_neg ha, Nat.max_eq_left (Nat.le_of_not_le ha)]

/-- A block is its first cell and the block behind it. -/
theorem slice_succ :
    m.slice a (n + 1) = do return (← m.read a) :: (← m.slice (a + 1) n) := by
  by_cases ha : a < size
  · by_cases hn : a + (n + 1) ≤ size
    · have htail : (fun i : Fin n => m.cell (a + i.succ)) = fun i : Fin n => m.cell (a + 1 + i) :=
        funext fun i => congrArg m.cell (Nat.add_right_comm a i 1)
      rw [read_of_lt m ha, slice_eq_cells m hn, slice_eq_cells m (by omega), List.ofFn_succ, htail]
      rfl
    · have hmax : max a size = max (a + 1) size := by omega
      rw [read_of_lt m ha, slice, dif_neg hn, slice, dif_neg (by omega), hmax]
      rfl
  · rw [read_of_not_lt m ha, slice, dif_neg (by omega), Nat.max_eq_left (Nat.le_of_not_lt ha)]
    rfl

/-- **A block is read as its cells are**, unless it has none and lies behind the last one. -/
theorem slice_eq_mapM (h : 0 < n ∨ a ≤ size) : m.slice a n = (List.range' a n).mapM m.read := by
  induction n generalizing a with
  | zero =>
    rw [slice_zero, if_pos (h.resolve_left (Nat.lt_irrefl 0))]
    rfl
  | succ n ih =>
    rw [slice_succ, List.range'_succ, List.mapM_cons]
    by_cases ha : a < size
    · rw [ih (Or.inr ha)]
    · rw [read_of_not_lt m ha]
      rfl

/-! ### Writing -/

theorem blit_of_size_le (h : size ≤ a) : m.blit a bs = m :=
  ext_cell fun _ hi => cell_blit_of_lt (Or.inl (Nat.lt_of_lt_of_le hi h))

/-- Writes one by one leave what fits, whether the last of them is refused or not. -/
theorem run_putEach (h : bs ≠ [] ∨ a ≤ size) :
    (putEach a bs).run m =
      if a + bs.length ≤ size then .ok () (m.blit a bs)
      else .error (.outOfBounds (max a size)) (m.blit a bs) := by
  induction bs generalizing a m with
  | nil =>
    have ha : a + ([] : List Byte).length ≤ size := h.resolve_left fun hnil => hnil rfl
    rw [if_pos ha]
    rfl
  | cons b bs ih =>
    rw [putEach, EStateM.run_bind, List.length_cons]
    by_cases ha : a < size
    · have hmax : max (a + 1) size = max a size := by omega
      have hlength : a + 1 + bs.length = a + (bs.length + 1) := by omega
      rw [run_put_of_lt ha]
      simp only [ih _ (Or.inr ha), hmax, hlength]
      rfl
    · have hle : size ≤ a := Nat.le_of_not_lt ha
      rw [run_put_of_not_lt ha, if_neg (by omega), Nat.max_eq_left hle, blit_of_size_le m hle]

theorem run_copy :
    (copy a bs).run m =
      if a + bs.length ≤ size then .ok () (m.blit a bs)
      else .error (.outOfBounds (max a size)) m := by
  by_cases h : a + bs.length ≤ size
  · rw [if_pos h]
    exact run_copy_of_stop ((stop_eq ..).trans (if_pos h))
  · rw [if_neg h]
    exact run_copy_of_stop_error ((stop_eq ..).trans (if_neg h))

/-- What a machine writes to its memory is such a block. -/
theorem run_copy_eq_ok_iff {k : Memory} :
    (copy a bs).run m = .ok () k ↔ m.replace a bs = .ok k := by
  rw [run_copy, replace]
  by_cases h : a + bs.length ≤ size
  · rw [if_pos h, if_pos h, EStateM.Result.ok.injEq, Except.ok.injEq, eq_self, true_and]
  · rw [if_neg h, if_neg h]
    exact iff_of_false nofun nofun

theorem run_copy_eq_error_iff {e : MemoryError} :
    (copy a bs).run m = .error e m ↔ m.replace a bs = .error e := by
  rw [run_copy, replace]
  by_cases h : a + bs.length ≤ size
  · rw [if_pos h, if_pos h]
    exact iff_of_false nofun nofun
  · rw [if_neg h, if_neg h, EStateM.Result.error.injEq, Except.error.injEq, and_iff_left rfl]

theorem run_copy_nil (a : Nat) :
    (copy a []).run m = if a ≤ size then .ok () m else .error (.outOfBounds a) m := by
  rw [run_copy, List.length_nil, Nat.add_zero]
  by_cases ha : a ≤ size
  · rw [if_pos ha, if_pos ha, blit]
  · rw [if_neg ha, if_neg ha, Nat.max_eq_left (Nat.le_of_not_le ha)]

/-- **A block is written as its cells are, or not at all**, unless it has none and lies behind the
last one. -/
theorem run_copy_eq_atomically (h : bs ≠ [] ∨ a ≤ size) :
    (copy a bs).run m = (putEach a bs).atomically.run m := by
  have heach := run_putEach m h
  rw [run_copy]
  by_cases hfits : a + bs.length ≤ size
  · rw [if_pos hfits] at heach ⊢
    rw [Access.run_atomically_ok heach]
  · rw [if_neg hfits] at heach ⊢
    rw [Access.run_atomically_error heach]

/-! ### All accesses -/

/-- **Blocks are accessed as their cells are.** At any address, a word is the number that the two
bytes there make up, the high one first, and a block is the list of its bytes, with the error of the
first byte that is refused.
A block is written as its bytes are, one by one, or it changes nothing and gives the error of the
first of them that is refused; it is written where it can be read. A block of no cells can lie
anywhere up to the end of memory. The end of a block may saturate, and a word of any other list of
bytes is read in the same way. -/
theorem blocks_eq_cells (m : Memory) :
    (∀ p, (m.fetch p).map BitVec.toNat = do
        return 256 * (← m.read p).toNat + (← m.read (p + 1)).toNat) ∧
      (∀ a n, 0 < n → m.slice a n = (List.range' a n).mapM m.read) ∧
      (∀ a bs, bs ≠ [] → (copy a bs).run m = (putEach a bs).atomically.run m) ∧
      (∀ a bs n, (copy a bs).run m = .ok () n ↔ m.replace a bs = .ok n) ∧
      (∀ a bs e, (copy a bs).run m = .error e m ↔ m.replace a bs = .error e) ∧
      (∀ a bs, (∃ n, (copy a bs).run m = .ok () n) ↔ ∃ cs, m.slice a bs.length = .ok cs) ∧
      (∀ a bs n, (copy a bs).run m = .ok () n →
        n.cells.toList = m.cells.toList.take a ++ bs ++ m.cells.toList.drop (a + bs.length)) ∧
      (∀ a bs e n, (copy a bs).run m = .error e n → n = m) ∧
      (∀ a, m.slice a 0 = (if a ≤ 0x1000 then .ok [] else .error (.outOfBounds a)) ∧
        (copy a []).run m = if a ≤ 0x1000 then .ok () m else .error (.outOfBounds a) m) ∧
      (∀ a n, m.slice a n = (stop a n).map fun e => (m.cells.toList.take e).drop a) ∧
      ∀ cells p, (Word.read cells p).map BitVec.toNat = do
        return 256 * (← Byte.read cells p).toNat + (← Byte.read cells (p + 1)).toNat := by
  refine ⟨fun p => ?_, fun a n hn => m.slice_eq_mapM (Or.inl hn),
    fun a bs hbs => m.run_copy_eq_atomically (Or.inl hbs), fun _ _ _ => m.run_copy_eq_ok_iff,
    fun _ _ _ => m.run_copy_eq_error_iff, fun a bs => ?_, fun a bs n h => ?_, fun a bs e n h => ?_,
    fun a => ⟨m.slice_zero a, m.run_copy_nil a⟩, m.slice_eq_stop, Word.toNat_read⟩
  · rw [fetch, Word.toNat_read, read_eq, read_eq]
  · rw [run_copy, slice_eq_stop, stop_eq]
    by_cases h : a + bs.length ≤ size
    · rw [if_pos h, if_pos h]
      exact iff_of_true ⟨_, rfl⟩ ⟨_, rfl⟩
    · rw [if_neg h, if_neg h]
      refine iff_of_false ?_ ?_
      · rintro ⟨n, hn⟩
        cases hn
      · rintro ⟨cs, hcs⟩
        cases hcs
  · rw [run_copy] at h
    split at h
    · rename_i hfits
      cases h
      exact m.toList_blit bs hfits
    · cases h
  · rw [run_copy] at h
    split at h
    · cases h
    · cases h
      rfl

/-- Three cells at the end of memory are read and written as a block. From the next cell on there
are only two: as a block nothing is written to them, one by one both are. The font begins with the
word F090, and behind the last cell there is no byte for another word. -/
theorem blocks_eq_cells_brim :
    (initial.fetch 0).map BitVec.toNat = .ok 0xF090 ∧
      (initial.fetch 0xFFF).map BitVec.toNat = .error (.outOfBounds 0x1000) ∧
      (Word.read #[0x12, 0x34, 0x56] 1).map BitVec.toNat = .ok 0x3456 ∧
      initial.slice 0xFFD 3 = [0xFFD, 0xFFE, 0xFFF].mapM initial.read ∧
      (∃ n, (copy 0xFFD [1, 2, 3]).run initial = .ok () n ∧
        n.cells.toList = initial.cells.toList.take 0xFFD ++ [1, 2, 3] ++
          initial.cells.toList.drop 0x1000) ∧
      (∃ e n, (copy 0xFFE [1, 2, 3]).run initial = .error e n ∧ n = initial ∧
        (putEach 0xFFE [1, 2, 3]).atomically.run initial = .error e n) ∧
      ∃ e n, (putEach 0xFFE [1, 2, 3]).run initial = .error e n ∧ n.cell 0xFFF = 2 := by
  obtain ⟨hfetch, hslice, hcopy, -, -, -, hwritten, hrefused, -, -, hword⟩ :=
    blocks_eq_cells initial
  have hfits : (copy 0xFFD [1, 2, 3]).run initial = .ok () _ :=
    (run_copy initial).trans (if_pos (by decide))
  have hlate : (copy 0xFFE [1, 2, 3]).run initial = .error _ initial :=
    (run_copy initial).trans (if_neg (by decide))
  have heach : (putEach 0xFFE [1, 2, 3]).run initial = .error _ _ :=
    (run_putEach initial (Or.inr (by decide))).trans (if_neg (by decide))
  have hfont : initial.read 0 = .ok 0xF0 ∧ initial.read 1 = .ok 0x90 := by
    have hcell (i : Nat) (hi : i < Font.bytes.length) :=
      cell_blit_add ⟨.replicate size 0⟩ (a := Font.location) (by decide) hi
    exact ⟨(read_of_lt initial (by decide)).trans (congrArg _ (hcell 0 (by decide))),
      (read_of_lt initial (by decide)).trans (congrArg _ (hcell 1 (by decide)))⟩
  refine ⟨?_, ?_, (hword _ 1).trans rfl,
    hslice 0xFFD 3 (by decide), ⟨_, hfits, hwritten _ _ _ hfits⟩,
    ⟨_, _, hlate, hrefused _ _ _ _ hlate, ?_⟩, ⟨_, _, heach, ?_⟩⟩
  · rw [hfetch, hfont.1, hfont.2]
    rfl
  · rw [hfetch, read_of_not_lt initial (a := 0xFFF + 1) (by decide), read_of_lt initial (by decide)]
    rfl
  · rw [← hcopy _ _ (List.cons_ne_nil _ _), hlate]
  · rw [cell, getElem?_blit, if_pos (by decide)]
    rfl

end Memory

end Chip8
