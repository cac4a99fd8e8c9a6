/-!
# Bytes, words and addresses

The widths of the machine, and the big-endian reading of words.

* `Byte`, `Word`, `Address`, `Nibble` : 8, 16, 12 and 4 bits.
* `Word.ofBytes` : a word from its two bytes, the high one first.
* `Word.high`, `Word.low` : the two bytes of a word.
* `Word.toNat_ofBytes` : the number that a word stands for.
* `Word.high_ofBytes`, `Word.low_ofBytes`, `Word.ofBytes_high_low` : these undo each other.
-/

namespace Chip8

/-- The value of a register or a memory cell. -/
abbrev Byte := BitVec 8

/-- The value of an instruction word. -/
abbrev Word := BitVec 16

/-- A masked address: the value of the index register or of a `NNN` operand. -/
abbrev Address := BitVec 12

/-- Four bits of an instruction word: a register number, a key or the height of a sprite. -/
abbrev Nibble := Fin 16

namespace Word

/-- The bytes of a word. -/
def size : Nat := 2

/-- The word with the high byte `hi` and the low byte `lo`. -/
def ofBytes (hi lo : Byte) : Word := hi ++ lo

/-- The high byte of `w`. -/
def high (w : Word) : Byte := w.extractLsb' 8 8

/-- The low byte of `w`. -/
def low (w : Word) : Byte := w.extractLsb' 0 8

theorem toNat_ofBytes (hi lo : Byte) : (ofBytes hi lo).toNat = 256 * hi.toNat + lo.toNat := by
  rw [ofBytes, BitVec.toNat_append, ← Nat.shiftLeft_add_eq_or_of_lt lo.isLt, Nat.shiftLeft_eq,
    Nat.mul_comm]

@[simp] theorem high_ofBytes (hi lo : Byte) : high (ofBytes hi lo) = hi := by
  apply BitVec.eq_of_getLsbD_eq
  intro i h
  simp only [high, ofBytes, BitVec.getLsbD_extractLsb', BitVec.getLsbD_append]
  simp [h]

@[simp] theorem low_ofBytes (hi lo : Byte) : low (ofBytes hi lo) = lo := by
  apply BitVec.eq_of_getLsbD_eq
  intro i h
  simp only [low, ofBytes, BitVec.getLsbD_extractLsb', BitVec.getLsbD_append]
  simp [h]

@[simp] theorem ofBytes_high_low (w : Word) : ofBytes (high w) (low w) = w := by
  apply BitVec.eq_of_getLsbD_eq
  intro i h
  simp only [ofBytes, high, low, BitVec.getLsbD_append, BitVec.getLsbD_extractLsb']
  split
  · simp [*]
  · simp only [show i - 8 < 8 by omega, decide_true, Bool.true_and]
    congr 1
    omega

end Word

end Chip8
