import Chip8.Proofs.Cells
import Chip8.Proofs.Faults

/-!
# Registers in memory

`FX55` writes the registers up to `X` at the index, `FX65` reads them from there, and `FX33` writes
the decimal digits of a register. Where memory has room for the block, the first two undo each
other.

* `Registers.get_fill_upTo`, `Registers.upTo_fill` : a block of registers, written and read.
* `Machine.executeWord_of_store`, `Machine.executeWord_of_load`,
  `Machine.executeWord_of_storeDigits` : what the three words leave behind.
* `Byte.decimal_eq` : the decimal digits of a byte.
* `Machine.store_load_inverse` : **storing and loading registers undo each other.**
-/

namespace Chip8

/-! ### Rows of the table -/

namespace Instruction

variable {w : Word}

theorem ofWord_of_store (h : w.fits "FX55" = true) : ofWord w = .store w.x := by
  simp [Word.fits, Pattern.admits, Hex.value] at h
  simp [ofWord, ofFields, ofDevices, Fields.family_ofWord, Fields.nn_ofWord, Fields.x_eq, h]

theorem ofWord_of_load (h : w.fits "FX65" = true) : ofWord w = .load w.x := by
  simp [Word.fits, Pattern.admits, Hex.value] at h
  simp [ofWord, ofFields, ofDevices, Fields.family_ofWord, Fields.nn_ofWord, Fields.x_eq, h]

theorem ofWord_of_storeDigits (h : w.fits "FX33" = true) : ofWord w = .storeDigits w.x := by
  simp [Word.fits, Pattern.admits, Hex.value] at h
  simp [ofWord, ofFields, ofDevices, Fields.family_ofWord, Fields.nn_ofWord, Fields.x_eq, h]

end Instruction

/-! ### Blocks of registers -/

namespace Registers

variable (r s : Registers) {x y : Nibble}

theorem getElem?_upTo : (r.upTo x)[y.val]? = if y ≤ x then some (r.get y) else none := by
  rw [upTo, List.getElem?_take]
  by_cases h : y ≤ x
  · rw [if_pos (Nat.lt_succ_of_le h), if_pos h, Vector.getElem?_toList, Vector.getElem?_eq_getElem]
    rfl
  · rw [if_neg (mt Nat.le_of_lt_succ h), if_neg h]

/-- What was read from other registers is there. -/
theorem get_fill_upTo : (r.fill x (s.upTo x)).get y = if y ≤ x then s.get y else r.get y := by
  rw [get_fill]
  by_cases h : y ≤ x
  · rw [if_pos h, if_pos h, Fin.getElem?_fin, getElem?_upTo, if_pos h, Option.getD_some]
  · rw [if_neg h, if_neg h]

/-- What was written is read. -/
theorem upTo_fill {bs : List Byte} (h : bs.length = x + 1) : (r.fill x bs).upTo x = bs := by
  rw [upTo, toList_fill r x bs h, ← h, List.take_left]

end Registers

/-! ### Decimal digits -/

/-- The digits of a byte are digits, and write its number. -/
theorem Byte.decimal_eq (b : Byte) :
    ∃ h t u : Byte, b.decimal = [h, t, u] ∧ h.toNat ≤ 9 ∧ t.toNat ≤ 9 ∧ u.toNat ≤ 9 ∧
      100 * h.toNat + 10 * t.toNat + u.toNat = b.toNat := by
  have hb : b.toNat < 256 := b.isLt
  have hh : (b / 100).toNat = b.toNat / 100 := BitVec.toNat_udiv
  have ht : (b / 10 % 10).toNat = b.toNat / 10 % 10 := by
    rw [BitVec.toNat_umod, BitVec.toNat_udiv]
    rfl
  have hu : (b % 10).toNat = b.toNat % 10 := BitVec.toNat_umod
  refine ⟨b / 100, b / 10 % 10, b % 10, rfl, ?_, ?_, ?_, ?_⟩ <;> omega

/-! ### The three words -/

namespace Machine

variable {m : Machine} {w : Word}

/-- `FX55` writes the registers to memory, and moves the index behind them. -/
theorem executeWord_of_store (hw : w.fits "FX55" = true)
    (hroom : m.registers.index.toNat + w.x + 1 ≤ Memory.size) :
    (m.executeWord w).result = .ok .none ∧
      m.afterWord w =
        { m with
          opcode := w
          memory := m.memory.blit m.registers.index.toNat (m.registers.upTo w.x)
          registers := { m.registers.passBlock w.x with pc := m.registers.pc + Word.size } } := by
  have hreplace : (m.fetched w).memory.replace (m.fetched w).registers.index.toNat
      ((m.fetched w).registers.upTo w.x) = .ok _ :=
    Memory.replace_of_le _ (by rw [length_upTo]; exact hroom)
  have hafter := executeWord_of_executed (m := m) (w := w) (e := { machine := _ }) <| by
    rw [Instruction.ofWord_of_store hw, execute, storeAtIndex, hreplace]
    rfl
  exact ⟨congrArg (·.result) hafter, congrArg (·.machine) hafter⟩

/-- `FX65` reads the registers from memory, and moves the index behind the block. -/
theorem executeWord_of_load (hw : w.fits "FX65" = true)
    (hroom : m.registers.index.toNat + w.x + 1 ≤ Memory.size) :
    ∃ bs, m.memory.slice m.registers.index.toNat (w.x + 1) = .ok bs ∧
      (m.executeWord w).result = .ok .none ∧
      m.afterWord w =
        { m with
          opcode := w
          registers := { (m.registers.fill w.x bs).passBlock w.x with
            pc := m.registers.pc + Word.size } } := by
  obtain ⟨bs, hslice⟩ : ∃ bs, m.memory.slice m.registers.index.toNat (w.x + 1) = .ok bs :=
    ⟨_, Memory.slice_of_le _ hroom⟩
  have hslice' : (m.fetched w).memory.slice (m.fetched w).registers.index.toNat (w.x + 1) =
      .ok bs := hslice
  have hafter := executeWord_of_executed (m := m) (w := w) (e := { machine := _ }) <| by
    rw [Instruction.ofWord_of_load hw, execute, loadBlock, hslice']
    rfl
  exact ⟨bs, hslice, congrArg (·.result) hafter, congrArg (·.machine) hafter⟩

/-- `FX33` writes the digits of a register to memory. -/
theorem executeWord_of_storeDigits (hw : w.fits "FX33" = true)
    (hroom : m.registers.index.toNat + 3 ≤ Memory.size) :
    (m.executeWord w).result = .ok .none ∧
      m.afterWord w =
        { m with
          opcode := w
          memory := m.memory.blit m.registers.index.toNat (m.registers.get w.x).decimal
          registers := m.registers.advance } := by
  have hreplace : (m.fetched w).memory.replace (m.fetched w).registers.index.toNat
      ((m.fetched w).registers.get w.x).decimal = .ok _ := Memory.replace_of_le _ hroom
  have hafter := executeWord_of_executed (m := m) (w := w) (e := { machine := _ }) <| by
    rw [Instruction.ofWord_of_storeDigits hw, execute, storeAtIndex, hreplace]
    rfl
  exact ⟨congrArg (·.result) hafter, congrArg (·.machine) hafter⟩

theorem toNat_index_passBlock (r : Registers) (x : Nibble) :
    (r.passBlock x).index.toNat = (r.index.toNat + x + 1) % 0x1000 := BitVec.toNat_ofNat ..

/-- Behind the last cell the index starts again. -/
theorem index_passBlock_of_last {r : Registers} {x : Nibble} (h : r.index.toNat + x = 0xFFF) :
    (r.passBlock x).index = 0 := by
  apply BitVec.eq_of_toNat_eq
  rw [toNat_index_passBlock, h]
  rfl

theorem get_of_load (hw : w.fits "FX65" = true)
    (hroom : m.registers.index.toNat + w.x + 1 ≤ Memory.size) (y : Nibble) :
    (m.afterWord w).registers.get y =
      if y ≤ w.x then m.memory.cell (m.registers.index.toNat + y) else m.registers.get y := by
  obtain ⟨bs, hslice, -, hafter⟩ := executeWord_of_load hw hroom
  rw [hafter]
  refine (Registers.get_fill ..).trans ?_
  by_cases hy : y ≤ w.x
  · have hlt : y.val < w.x.val + 1 := Nat.lt_succ_of_le hy
    rw [Memory.slice_eq_cells (n := w.x + 1) _ hroom] at hslice
    rw [if_pos hy, if_pos hy, ← Except.ok.inj hslice, Fin.getElem?_fin, List.getElem?_ofFn,
      dif_pos hlt, Option.getD_some]
  · rw [if_neg hy, if_neg hy]

section Blocks

variable {store load : Word} (hstore : store.fits "FX55" = true) (hload : load.fits "FX65" = true)
  (hx : store.x = load.x) {k : Machine} (hindex : k.registers.index = m.registers.index)
include hstore

theorem cell_of_store (hroom : m.registers.index.toNat + store.x + 1 ≤ Memory.size) {y : Nibble}
    (hy : y ≤ store.x) :
    (m.afterWord store).memory.cell (m.registers.index.toNat + y) = m.registers.get y := by
  have hlength : (m.registers.upTo store.x).length = store.x + 1 := length_upTo ..
  have hlt : y.val < store.x.val + 1 := Nat.lt_succ_of_le hy
  have hget := m.registers.getElem?_upTo (x := store.x) (y := y)
  rw [if_pos hy] at hget
  rw [(executeWord_of_store hstore hroom).2]
  exact (Memory.cell_blit_add _ (by omega) (by omega)).trans
    (Option.some.inj ((List.getElem?_eq_getElem _).symm.trans hget))

theorem cell_of_store_of_lt (hroom : m.registers.index.toNat + store.x + 1 ≤ Memory.size) {a : Nat}
    (ha : a < m.registers.index.toNat ∨ m.registers.index.toNat + store.x < a) :
    (m.afterWord store).memory.cell a = m.memory.cell a := by
  rw [(executeWord_of_store hstore hroom).2]
  exact Memory.cell_blit_of_lt (by rw [length_upTo]; omega)

include hload hx hindex

/-- **Registers that were stored are loaded**, whatever the registers hold by then. -/
theorem get_of_load_of_store (hroom : m.registers.index.toNat + store.x + 1 ≤ Memory.size)
    (hmemory : k.memory = (m.afterWord store).memory) :
    (k.executeWord load).result = .ok .none ∧
      ∀ y, (k.afterWord load).registers.get y =
        if y ≤ store.x then m.registers.get y else k.registers.get y := by
  have hroom' : k.registers.index.toNat + load.x + 1 ≤ Memory.size := by rwa [hindex, ← hx]
  obtain ⟨bs, hslice, hresult, hafter⟩ := executeWord_of_load hload hroom'
  -- the block that is read is the one that was written
  have hbs : bs = m.registers.upTo store.x := by
    have hlength : (m.registers.upTo store.x).length = store.x + 1 := length_upTo ..
    have hwritten : (m.memory.blit m.registers.index.toNat (m.registers.upTo store.x)).slice
        m.registers.index.toNat (m.registers.upTo store.x).length =
          .ok (m.registers.upTo store.x) := m.memory.slice_blit (by omega)
    rw [hmemory, (executeWord_of_store hstore hroom).2, hindex, ← hx, ← hlength, hwritten] at hslice
    exact (Except.ok.inj hslice).symm
  refine ⟨hresult, fun y => ?_⟩
  rw [hafter, hbs, ← hx]
  exact Registers.get_fill_upTo ..

/-- **Memory that was loaded is as it was when it is stored again.** -/
theorem memory_of_store_of_load (hroom : m.registers.index.toNat + load.x + 1 ≤ Memory.size)
    (hmemory : k.memory = (m.afterWord load).memory)
    (hv : k.registers.v = (m.afterWord load).registers.v) :
    (k.executeWord store).result = .ok .none ∧ (k.afterWord store).memory = m.memory := by
  have hroom' : k.registers.index.toNat + store.x + 1 ≤ Memory.size := by rwa [hindex, hx]
  obtain ⟨bs, hslice, -, hafter⟩ := executeWord_of_load hload hroom
  obtain ⟨hresult, hstored⟩ := executeWord_of_store hstore hroom'
  have hbs : k.registers.upTo store.x = bs := by
    rw [hafter] at hv
    have hupTo : k.registers.upTo store.x = (m.registers.fill load.x bs).upTo load.x := by
      rw [hx, Registers.upTo, hv]
      rfl
    rw [hupTo, Registers.upTo_fill _ (Memory.length_of_slice _ hslice)]
  refine ⟨hresult, ?_⟩
  rw [hstored, hbs, hindex, hmemory, hafter]
  exact Memory.blit_slice _ hslice

end Blocks

/-- **Storing and loading registers undo each other.**  Take any machine, and any `X` for which
memory has room for the block at the index. An `FX55` writes `V0` to `VX` to the cells of the block
and changes no other cell, and an `FX65` reads them from there and changes no cell; both move the
index behind the block, around the end of memory. If the index is put back, an `FX65` after the
`FX55` gives back `V0` to `VX`, whatever the registers hold by then, and leaves the others alone,
and an `FX55` after the `FX65` leaves memory as it was. An `FX33` writes three digits that write the
number in `VX`, and changes no other cell and no register. -/
theorem store_load_inverse (m : Machine) :
    let i := m.registers.index.toNat
    (∀ w, m.halted = none → m.memory.fetch m.registers.pc = .ok w → m.step = m.executeWord w) ∧
    (∀ store : Word, store.fits "FX55" = true → i + store.x + 1 ≤ 0x1000 →
      let n := m.afterWord store
      (m.executeWord store).result = .ok .none ∧
      (∀ y ≤ store.x, n.memory.cell (i + y) = m.registers.get y) ∧
      (∀ a, a < i ∨ i + store.x < a → n.memory.cell a = m.memory.cell a) ∧
      n.registers.index.toNat = (i + store.x + 1) % 0x1000 ∧
      (i + store.x = 0xFFF → n.registers.index = 0) ∧
      ∀ (load : Word) (k : Machine), load.fits "FX65" = true → store.x = load.x →
        k.registers.index = m.registers.index → k.memory = n.memory →
        (k.executeWord load).result = .ok .none ∧
          ∀ y, (k.afterWord load).registers.get y =
            if y ≤ store.x then m.registers.get y else k.registers.get y) ∧
    (∀ load : Word, load.fits "FX65" = true → i + load.x + 1 ≤ 0x1000 →
      let n := m.afterWord load
      (m.executeWord load).result = .ok .none ∧
      (∀ y, n.registers.get y =
        if y ≤ load.x then m.memory.cell (i + y) else m.registers.get y) ∧
      n.memory = m.memory ∧
      n.registers.index.toNat = (i + load.x + 1) % 0x1000 ∧
      (i + load.x = 0xFFF → n.registers.index = 0) ∧
      ∀ (store : Word) (k : Machine), store.fits "FX55" = true → store.x = load.x →
        k.registers.index = m.registers.index → k.memory = n.memory →
        k.registers.v = n.registers.v →
        (k.executeWord store).result = .ok .none ∧ (k.afterWord store).memory = m.memory) ∧
    ∀ w : Word, w.fits "FX33" = true → i + 3 ≤ 0x1000 →
      let n := m.afterWord w
      (m.executeWord w).result = .ok .none ∧
      (∃ h t u : Byte, h.toNat ≤ 9 ∧ t.toNat ≤ 9 ∧ u.toNat ≤ 9 ∧
        100 * h.toNat + 10 * t.toNat + u.toNat = (m.registers.get w.x).toNat ∧
        n.memory.cell i = h ∧ n.memory.cell (i + 1) = t ∧ n.memory.cell (i + 2) = u) ∧
      (∀ a, a < i ∨ i + 2 < a → n.memory.cell a = m.memory.cell a) ∧
      n.registers = { m.registers with pc := m.registers.pc + 2 } := by
  intro i
  refine ⟨fun w => step_of_fetched, fun store hstore hroom => ?_, fun load hload hroom => ?_,
    fun w hw hroom => ?_⟩
  · obtain ⟨hresult, hafter⟩ := executeWord_of_store hstore hroom
    have hindex : (m.afterWord store).registers.index = (m.registers.passBlock store.x).index := by
      rw [hafter]
    refine ⟨hresult, fun y => cell_of_store hstore hroom, fun a => cell_of_store_of_lt hstore hroom,
      ?_, fun hlast => ?_, fun load k hload hx hk =>
        get_of_load_of_store hstore hload hx hk hroom⟩
    · rw [hindex, toNat_index_passBlock]
    · rw [hindex, index_passBlock_of_last hlast]
  · obtain ⟨bs, -, hresult, hafter⟩ := executeWord_of_load hload hroom
    have hindex : (m.afterWord load).registers.index = (m.registers.passBlock load.x).index := by
      rw [hafter, Registers.passBlock, Registers.index_fill]
      rfl
    refine ⟨hresult, get_of_load hload hroom, by rw [hafter], ?_, fun hlast => ?_,
      fun store k hstore hx hk => memory_of_store_of_load hstore hload hx hk hroom⟩
    · rw [hindex, toNat_index_passBlock]
    · rw [hindex, index_passBlock_of_last hlast]
  · obtain ⟨hresult, hafter⟩ := executeWord_of_storeDigits hw hroom
    obtain ⟨h, t, u, hdigits, hh, ht, hu, hnumber⟩ := (m.registers.get w.x).decimal_eq
    have hmemory : (m.afterWord w).memory = m.memory.blit i [h, t, u] := by
      rw [hafter, hdigits]
    have hcell (j : Nat) (hj : j < 3) : (m.afterWord w).memory.cell (i + j) = [h, t, u][j] := by
      rw [hmemory]
      exact Memory.cell_blit_add _ hroom hj
    refine ⟨hresult, ⟨h, t, u, hh, ht, hu, hnumber, hcell 0 (by decide), hcell 1 (by decide),
      hcell 2 (by decide)⟩, fun a ha => ?_, ?_⟩
    · rw [hmemory]
      exact Memory.cell_blit_of_lt (by simp only [List.length_cons, List.length_nil]; omega)
    · rw [hafter]
      rfl

/-- A machine with 200 to 215 in its registers and the index before the last three cells. -/
def brimming : Machine :=
  (returning .halt).withRegisters
    { Registers.start with v := .ofFn fun y => .ofNat 8 (200 + y), index := 0xFFD }

/-- Three registers in the last three cells, read back over registers of zeros; the three cells
loaded and written back; and the digits of 201. -/
theorem store_load_inverse_brimming :
    let n := brimming.afterWord 0xF255
    let k := { n with registers := { Registers.start with index := 0xFFD } }
    let l := brimming.afterWord 0xF265
    let j := { l with registers := { l.registers with index := 0xFFD } }
    let d := brimming.afterWord 0xF133
    n.memory.cell 0xFFF = 202 ∧ n.registers.index = 0 ∧
      (k.afterWord 0xF265).registers.get ⟨2, by decide⟩ = 202 ∧
      (k.afterWord 0xF265).registers.get ⟨3, by decide⟩ = 0 ∧
      (j.afterWord 0xF255).memory = brimming.memory ∧
      100 * (d.memory.cell 0xFFD).toNat + 10 * (d.memory.cell 0xFFE).toNat +
        (d.memory.cell 0xFFF).toNat = 201 := by
  intro n k l j d
  obtain ⟨-, hstore, hload, hdigits⟩ := store_load_inverse brimming
  obtain ⟨-, hcell, -, -, hlast, hback⟩ := hstore 0xF255 (by decide) (by decide)
  obtain ⟨-, -, -, -, -, hagain⟩ := hload 0xF265 (by decide) (by decide)
  obtain ⟨-, ⟨h, t, u, -, -, -, hnumber, hh, ht, hu⟩, -, -⟩ :=
    hdigits 0xF133 (by decide) (by decide)
  have hread := (hback 0xF265 k (by decide) (by decide) rfl rfl).2
  have hmemory : j.memory = l.memory := by dsimp only [j]
  have hv : j.registers.v = l.registers.v := by dsimp only [j]
  refine ⟨hcell ⟨2, by decide⟩ (by decide), hlast (by decide), ?_, ?_,
    (hagain 0xF255 j (by decide) (by decide) rfl hmemory hv).2, ?_⟩
  · rw [hread]
    rfl
  · rw [hread]
    rfl
  · have hindex : brimming.registers.index.toNat = 0xFFD := rfl
    rw [hindex] at hh ht hu
    rw [hh, ht, hu, hnumber]
    rfl

end Machine

end Chip8
