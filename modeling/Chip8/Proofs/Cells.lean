import Chip8.Memory.Basic

/-!
# Memory cell by cell

What the operations on memory read and write, told by single cells and by the list of all of them.

* `Memory.ext_cell` : memory is its cells.
* `Memory.cell_blit_add`, `Memory.cell_blit_of_lt` : a block of writes, in the block and around it.
* `Memory.slice_blit`, `Memory.blit_slice` : **what was written is read, and writing what was read
  changes nothing.**
* `Memory.toList_blit` : a block of writes stands between the cells before it and behind it.
* `Memory.slice_of_le` : a block that is there is a piece of the list.
* `Memory.toList_initial`, `Memory.toList_load` : the memory in which a program starts, cell by
  cell.
-/

namespace Chip8

namespace Memory

variable (m : Memory) {a n : Nat}

/-! ### Single cells -/

theorem ext_cell {m n : Memory} (h : ∀ a < size, m.cell a = n.cell a) : m = n := by
  obtain ⟨cells⟩ := m
  obtain ⟨others⟩ := n
  rw [mk.injEq]
  refine Vector.ext fun a ha => ?_
  exact ((getElem_cells _ ha).trans (h a ha)).trans (getElem_cells _ ha).symm

variable {m} in
theorem cell_blit_of_lt {bs : List Byte} {i : Nat} (h : i < a ∨ a + bs.length ≤ i) :
    (m.blit a bs).cell i = m.cell i := by
  rw [cell, getElem?_blit, if_neg (by omega)]
  rfl

theorem cell_blit_add {bs : List Byte} (h : a + bs.length ≤ size) {i : Nat} (hi : i < bs.length) :
    (m.blit a bs).cell (a + i) = bs[i] := by
  rw [cell, getElem?_blit, if_pos (by omega), Nat.add_sub_cancel_left,
    List.getElem?_eq_getElem hi, Option.getD_some]

theorem slice_eq_cells (h : a + n ≤ size) :
    m.slice a n = .ok (.ofFn fun i : Fin n => m.cell (a + i)) := by
  rw [slice, dif_pos h]
  refine congrArg (fun f => Except.ok (List.ofFn f)) (funext fun i => ?_)
  exact m.getElem_cells (by omega)

/-- What was written is read. -/
theorem slice_blit {bs : List Byte} (h : a + bs.length ≤ size) :
    (m.blit a bs).slice a bs.length = .ok bs := by
  have hcells : (fun i : Fin bs.length => (m.blit a bs).cell (a + i)) = fun i => bs[i.val] :=
    funext fun i => m.cell_blit_add h i.isLt
  rw [slice_eq_cells _ h, hcells, List.ofFn_getElem]

/-- Writing what was read changes nothing. -/
theorem blit_slice {bs : List Byte} (h : m.slice a n = .ok bs) : m.blit a bs = m := by
  by_cases hn : a + n ≤ size
  · rw [slice_eq_cells m hn] at h
    cases h
    refine ext_cell fun i _ => ?_
    by_cases hi : a ≤ i ∧ i < a + n
    · obtain ⟨k, rfl⟩ := Nat.exists_eq_add_of_le hi.1
      rw [cell_blit_add m (by rwa [List.length_ofFn]) (by rw [List.length_ofFn]; omega),
        List.getElem_ofFn]
    · exact cell_blit_of_lt (by rw [List.length_ofFn]; omega)
  · rw [slice, dif_neg hn] at h
    cases h

/-! ### All cells -/

theorem toList_blit (bs : List Byte) (h : a + bs.length ≤ size) :
    (m.blit a bs).cells.toList =
      m.cells.toList.take a ++ bs ++ m.cells.toList.drop (a + bs.length) := by
  have hl : (m.cells.toList.take a).length = a := by
    rw [List.length_take, Vector.length_toList, Nat.min_eq_left (by omega)]
  apply List.ext_getElem?
  intro i
  rw [Vector.getElem?_toList, getElem?_blit, List.append_assoc]
  -- before the block, in it and behind it
  by_cases ha : i < a
  · rw [if_neg (by omega), List.getElem?_append_left (by omega), List.getElem?_take_of_lt ha,
      Vector.getElem?_toList]
  · rw [List.getElem?_append_right (by omega), hl]
    by_cases hb : i < a + bs.length
    · rw [if_pos (by omega), List.getElem?_append_left (by omega)]
    · rw [if_neg (by omega), List.getElem?_append_right (by omega), List.getElem?_drop,
        Vector.getElem?_toList, show a + bs.length + (i - a - bs.length) = i by omega]

theorem slice_of_le (h : a + n ≤ size) :
    m.slice a n = .ok ((m.cells.toList.take (a + n)).drop a) := by
  rw [slice, dif_pos h, Except.ok.injEq]
  apply List.ext_getElem?
  intro i
  by_cases hi : i < n
  · simp [hi, show a + i < size by omega]
  · rw [List.getElem?_eq_none (by simpa using hi), List.getElem?_eq_none (by simp; omega)]

theorem replace_of_le {bs : List Byte} (h : a + bs.length ≤ size) :
    m.replace a bs = .ok (m.blit a bs) := if_pos h

theorem length_of_slice {bs : List Byte} (h : m.slice a n = .ok bs) : bs.length = n := by
  unfold slice at h
  split at h
  · cases h
    exact List.length_ofFn
  · cases h

/-- The cells of memory before a program is loaded. -/
theorem toList_initial :
    initial.cells.toList = Font.bytes ++ .replicate (size - Font.bytes.length) 0 := by
  rw [initial, toList_blit _ _ (by decide), Vector.toList_replicate, List.drop_replicate]
  rfl

/-- The cells of the memory in which a program starts: the font, zeros up to `origin`, the program
and zeros again. -/
theorem toList_load {bs : List Byte} {loaded : Memory} (h : initial.load bs = .ok loaded) :
    loaded.cells.toList =
      Font.bytes ++ .replicate (origin - Font.bytes.length) 0 ++ bs ++
        .replicate (size - (origin + bs.length)) 0 := by
  obtain ⟨hfits, rfl⟩ := blit_of_load h
  have hfont : Font.bytes.length ≤ origin := by decide
  have hsize : origin ≤ size := by decide
  rw [toList_blit _ _ (Nat.le_of_lt hfits), toList_initial, List.take_append,
    List.take_of_length_le hfont, List.drop_append, List.drop_of_length_le (by omega),
    List.take_replicate, List.drop_replicate, List.nil_append, Nat.min_eq_left (by omega),
    Nat.sub_sub,
    show Font.bytes.length + (origin + bs.length - Font.bytes.length) = origin + bs.length by omega]

end Memory

end Chip8
