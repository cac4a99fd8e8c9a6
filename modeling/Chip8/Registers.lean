import Chip8.CallStack
import Chip8.Flow
import Chip8.Memory.Layout

/-!
# The registers

The sixteen data registers, the index register, the program counter and the call stack.

* `Registers.start` : all zero, with the program counter on the first byte of the program.
* `Registers.set`, `Registers.setFlag`, `Registers.setIndex` : single writes.
* `Registers.upTo`, `Registers.fill` : the registers up to a number, read and written as a block.
* `Registers.advance`, `Registers.follow` : past the fetched word, and along its flow.
-/

namespace Chip8

/-- The number of data registers. -/
abbrev Registers.count : Nat := 16

/-- The register state of a machine. -/
structure Registers where
  /-- The data registers. -/
  v : Vector Byte Registers.count
  /-- The index register. -/
  index : Address
  /-- The program counter: the address of the next instruction. -/
  pc : Nat
  /-- The return addresses. -/
  stack : CallStack
  deriving DecidableEq

namespace Registers

/-- The register that receives carries, borrows and collisions. -/
def flagRegister : Nibble := ⟨15, by decide⟩

/-- The register that `BNNN` adds to its address. -/
def offsetRegister : Nibble := ⟨0, by decide⟩

/-- The registers before the first instruction. -/
def start : Registers := ⟨.replicate count 0, 0, Memory.origin, .empty⟩

variable (r : Registers)

/-- The value of register `x`. -/
def get (x : Nibble) : Byte := r.v[x]

/-- Writes register `x`. -/
def set (x : Nibble) (b : Byte) : Registers := { r with v := r.v.set x b }

/-- The value of the flag register. -/
def flag : Byte := r.get flagRegister

/-- Writes one or zero to the flag register. -/
def setFlag (c : Bool) : Registers := r.set flagRegister (if c then 1 else 0)

/-- Writes the index register; an address keeps its low twelve bits. -/
def setIndex (address : Nat) : Registers := { r with index := .ofNat 12 address }

/-- The values of the registers up to and including `x`. -/
def upTo (x : Nibble) : List Byte := r.v.toList.take (x + 1)

/-- Copies `data` into the registers from the first up to and including `x`, as much as there is. -/
def fill (x : Nibble) (data : List Byte) : Registers :=
  { r with v := .ofFn fun i => if i ≤ x then data[i]?.getD (r.get i) else r.get i }

/-- Moves the program counter past the word it points at. -/
def advance : Registers := { r with pc := r.pc + Word.size }

/-- Moves the program counter along `f`. -/
def follow (f : Flow) : Registers := { r with pc := f.apply r.pc }

/-! ### Reading after writing -/

variable {r}

theorem get_set (x y : Nibble) (b : Byte) : (r.set x b).get y = if x = y then b else r.get y := by
  simp [get, set, Vector.getElem_set, Fin.ext_iff]

theorem get_setFlag (c : Bool) (y : Nibble) :
    (r.setFlag c).get y = if flagRegister = y then (if c then 1 else 0) else r.get y :=
  get_set ..

@[simp] theorem index_fill (x : Nibble) (data : List Byte) : (r.fill x data).index = r.index := by
  simp only [fill]

@[simp] theorem pc_fill (x : Nibble) (data : List Byte) : (r.fill x data).pc = r.pc := by
  simp only [fill]

@[simp] theorem stack_fill (x : Nibble) (data : List Byte) : (r.fill x data).stack = r.stack := by
  simp only [fill]

theorem get_fill (x y : Nibble) (data : List Byte) :
    (r.fill x data).get y = if y ≤ x then data[y]?.getD (r.get y) else r.get y := by
  simp [get, fill]

variable (r) in
/-- A block that is filled stands in front of the other registers. -/
theorem toList_fill (x : Nibble) (bs : List Byte) (h : bs.length = x + 1) :
    (r.fill x bs).v.toList = bs ++ r.v.toList.drop (x + 1) := by
  have hx : x < count := x.isLt
  apply List.ext_getElem
  · simp only [Vector.length_toList, List.length_append, List.length_drop, h]
    omega
  · intro i hi _
    have hi : i < count := by simpa using hi
    have hg := get_fill (r := r) x ⟨i, hi⟩ bs
    rw [Vector.getElem_toList]
    by_cases hb : i < bs.length
    · rw [if_pos (by rw [Fin.le_def]; dsimp only; omega)] at hg
      rw [List.getElem_append_left hb]
      simpa [get, hb] using hg
    · rw [if_neg (by rw [Fin.le_def]; dsimp only; omega)] at hg
      rw [List.getElem_append_right (by omega), List.getElem_drop, Vector.getElem_toList]
      simp only [h, show x.val + 1 + (i - (x.val + 1)) = i by omega]
      exact hg

end Registers

end Chip8
