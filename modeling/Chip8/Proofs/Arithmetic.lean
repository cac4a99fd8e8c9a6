import Mathlib.Data.Int.Notation
import Chip8.Proofs.Writes

/-!
# Register arithmetic is exact

What the words of register arithmetic make of the numbers in their registers. Both operands are read
before anything is written, and the flag is written before the value. So it does not matter whether
the operands are the same register or the flag register itself, and if the value goes to the flag
register, the flag is lost.

* `Combination.row`, `Direction.row` : the rows of the instruction table.
* `Combination.toNat_add`, `Combination.toInt_sub`, `Direction.toNat_right`,
  `Direction.toNat_left` : the values and flags as numbers.
* `Machine.Computes` : what a word leaves behind that computes one register.
* `Machine.arithmetic_exact` : **every word of register arithmetic computes the exact numbers, and
  changes no other register.**
-/

namespace Chip8

/-! ### Rows of the table -/

/-- The row of the words that combine two registers. -/
def Combination.row : Combination → String
  | copy => "8XY0"
  | or => "8XY1"
  | and => "8XY2"
  | xor => "8XY3"
  | add => "8XY4"
  | sub => "8XY5"
  | reverseSub => "8XY7"

/-- The row of the words that shift a register. -/
def Direction.row : Direction → String
  | left => "8XYE"
  | right => "8XY6"

namespace Instruction

variable {w : Word}

theorem ofWord_of_combine (op : Combination) (h : w.fits op.row = true) :
    ofWord w = .combine op w.x w.y := by
  cases op <;>
    (simp [Combination.row, Word.fits, Pattern.admits, Hex.value] at h
     simp [ofWord, ofFields, ofArithmetic, Fields.family_ofWord, Fields.n_ofWord, Fields.x_eq,
       Fields.y_eq, h])

theorem ofWord_of_shift (d : Direction) (h : w.fits d.row = true) : ofWord w = .shift d w.x := by
  cases d <;>
    (simp [Direction.row, Word.fits, Pattern.admits, Hex.value] at h
     simp [ofWord, ofFields, ofArithmetic, Fields.family_ofWord, Fields.n_ofWord, Fields.x_eq, h])

theorem ofWord_of_addByte (h : w.fits "7XNN" = true) : ofWord w = .addByte w.x w.low := by
  simp [Word.fits, Pattern.admits, Hex.value] at h
  simp [ofWord, ofFields, Fields.family_ofWord, Fields.x_eq, h]
  rfl

end Instruction

/-! ### Values and flags as numbers -/

/-- The number that a flag writes to the flag register. -/
def Computed.flagNumber (c : Computed) : Nat := if c.flag = some true then 1 else 0

theorem Computed.flagNumber_lt (c : Computed) : c.flagNumber < 2 := by
  rw [flagNumber]
  split <;> decide

namespace Combination

variable (a b : Byte)

/-- A sum and its carry are the sum of the numbers. -/
theorem toNat_add :
    256 * (add.apply a b).flagNumber + (add.apply a b).value.toNat = a.toNat + b.toNat := by
  have ha : a.toNat < 256 := a.isLt
  have hb : b.toNat < 256 := b.isLt
  have hvalue : (add.apply a b).value.toNat = (a.toNat + b.toNat) % 256 := BitVec.toNat_add a b
  rw [hvalue]
  by_cases h : 255 < a.toNat + b.toNat
  · have hflag : (add.apply a b).flagNumber = 1 := if_pos (by simpa [apply] using h)
    omega
  · have hflag : (add.apply a b).flagNumber = 0 := if_neg (by simpa [apply] using h)
    omega

/-- A difference is that of the numbers, around the end of the bytes. -/
theorem toInt_sub : ((a - b).toNat : ℤ) = ((a.toNat : ℤ) - b.toNat) % 256 := by
  have hb : b.toNat < 256 := b.isLt
  rw [BitVec.toNat_sub]
  omega

theorem flagNumber_sub : (sub.apply a b).flagNumber = if a.toNat > b.toNat then 1 else 0 := by
  simp [Computed.flagNumber, apply, BitVec.lt_def]

end Combination

namespace Direction

variable (a : Byte)

/-- Half of a number and the bit that falls out. -/
theorem toNat_right : 2 * (right.apply a).value.toNat + (right.apply a).flagNumber = a.toNat := by
  have hvalue : (right.apply a).value.toNat = a.toNat / 2 := BitVec.toNat_ushiftRight ..
  have hbit : a.getLsbD 0 = decide (a.toNat % 2 = 1) := Nat.testBit_zero _
  rw [hvalue]
  by_cases h : a.toNat % 2 = 1
  · have hflag : (right.apply a).flagNumber = 1 := if_pos (by rw [apply, hbit]; simpa using h)
    omega
  · have hflag : (right.apply a).flagNumber = 0 := if_neg (by rw [apply, hbit]; simpa using h)
    omega

/-- Twice a number: the bit that falls out counts 256. -/
theorem toNat_left :
    256 * (left.apply a).flagNumber + (left.apply a).value.toNat = 2 * a.toNat := by
  have ha : a.toNat < 256 := a.isLt
  have hvalue : (left.apply a).value.toNat = a.toNat * 2 % 256 := by
    simp [apply, BitVec.toNat_shiftLeft, Nat.shiftLeft_eq]
  rw [hvalue]
  by_cases h : 128 ≤ a.toNat
  · have hflag : (left.apply a).flagNumber = 1 :=
      if_pos (by simpa [apply, BitVec.msb_eq_decide] using h)
    omega
  · have hflag : (left.apply a).flagNumber = 0 :=
      if_neg (by simpa [apply, BitVec.msb_eq_decide] using h)
    omega

end Direction

/-! ### The value is written after the flag -/

namespace Registers

variable (r : Registers) {x : Nibble} {c : Computed}

theorem get_put_self : (r.put x c).get x = c.value := (get_set ..).trans (if_pos rfl)

theorem flag_put (hc : c.flag ≠ none) (hx : x ≠ flagRegister) :
    (r.put x c).flag.toNat = c.flagNumber := by
  obtain ⟨value, _ | carry⟩ := c
  · exact absurd rfl hc
  · rw [flag, put, get_set, if_neg hx, get_setFlag, if_pos rfl]
    cases carry <;> rfl

end Registers

/-! ### Words that compute a register -/

namespace Machine

open Registers (flagRegister)

variable {m : Machine} {w : Word} {c : Computed}

/-- The word is executed, and writes some data registers at most. -/
structure WritesOnly (m : Machine) (w : Word) (written : Nibble → Prop) : Prop where
  result : (m.executeWord w).result = .ok .none
  registers : ∀ z, ¬ written z → (m.afterWord w).registers.get z = m.registers.get z
  /-- The stored word and the counter move on, and nothing else changes. -/
  rest : m.afterWord w =
    { m with
      opcode := w
      registers :=
        { m.registers with v := (m.afterWord w).registers.v, pc := m.registers.pc + Word.size } }

/-- The word computes `c` into register `X`. -/
structure Computes (m : Machine) (w : Word) (c : Computed) : Prop where
  value : (m.afterWord w).registers.get w.x = c.value
  /-- The flag is there unless the value was written over it. -/
  flag : c.flag ≠ none → w.x ≠ flagRegister →
    (m.afterWord w).registers.flag.toNat = c.flagNumber
  writes : m.WritesOnly w fun z => z = w.x ∨ c.flag ≠ none ∧ z = flagRegister

/-- A word computes what its instruction puts into register `X`. -/
theorem computes_of_put
    (hx : (m.fetched w).execute (.ofWord w) =
      .ok { machine := (m.fetched w).withRegisters (m.registers.advance.put w.x c) }) :
    m.Computes w c := by
  have hafter := executeWord_of_executed hx
  have hn : m.afterWord w = _ := congrArg (·.machine) hafter
  refine ⟨?_, fun hc hne => ?_, ⟨?_, fun z hz => ?_, ?_⟩⟩
  · rw [hn]
    exact Registers.get_put_self _
  · rw [hn]
    exact Registers.flag_put _ hc hne
  · rw [hafter]
    rfl
  · rw [hn]
    exact Decidable.not_not.1 fun hchange => hz (Registers.get_put_of_ne hchange)
  · rw [hn]
    obtain ⟨value, _ | flag⟩ := c <;> rfl

theorem computes_of_combine (op : Combination) (h : w.fits op.row = true) :
    m.Computes w (op.apply (m.registers.get w.x) (m.registers.get w.y)) := by
  apply computes_of_put
  rw [Instruction.ofWord_of_combine op h]
  rfl

theorem computes_of_shift (d : Direction) (h : w.fits d.row = true) :
    m.Computes w (d.apply (m.registers.get w.x)) := by
  apply computes_of_put
  rw [Instruction.ofWord_of_shift d h]
  rfl

theorem computes_of_addByte (h : w.fits "7XNN" = true) :
    m.Computes w { value := m.registers.get w.x + w.low } := by
  apply computes_of_put
  rw [Instruction.ofWord_of_addByte h]
  rfl

/-- The rows of the words that compute a register without a flag. -/
def plainRows : List String := ["8XY0", "8XY1", "8XY2", "8XY3", "7XNN"]

/-- The rows of the words that compute a register with a flag. -/
def carryRows : List String := ["8XY4", "8XY5", "8XY6", "8XY7", "8XYE"]

theorem writesOnly_of_plain (h : w.fitsAny plainRows = true) : m.WritesOnly w (· = w.x) := by
  have hwrites {c : Computed} (hc : m.Computes w c) (hflag : c.flag = none) :
      m.WritesOnly w (· = w.x) := by
    obtain ⟨hresult, hregisters, hrest⟩ := hc.writes
    refine ⟨hresult, fun z hz => hregisters z ?_, hrest⟩
    rintro (hx | ⟨hne, -⟩)
    · exact hz hx
    · exact hne hflag
  simp only [Word.fitsAny, plainRows, List.any_cons, List.any_nil, Bool.or_false,
    Bool.or_eq_true] at h
  rcases h with h | h | h | h | h
  · exact hwrites (computes_of_combine .copy h) rfl
  · exact hwrites (computes_of_combine .or h) rfl
  · exact hwrites (computes_of_combine .and h) rfl
  · exact hwrites (computes_of_combine .xor h) rfl
  · exact hwrites (computes_of_addByte h) rfl

theorem writesOnly_of_carry (h : w.fitsAny carryRows = true) :
    m.WritesOnly w fun z => z = w.x ∨ z = flagRegister := by
  have hwrites {c : Computed} (hc : m.Computes w c) :
      m.WritesOnly w fun z => z = w.x ∨ z = flagRegister := by
    obtain ⟨hresult, hregisters, hrest⟩ := hc.writes
    exact ⟨hresult, fun z hz => hregisters z (mt (Or.imp_right And.right) hz), hrest⟩
  simp only [Word.fitsAny, carryRows, List.any_cons, List.any_nil, Bool.or_false,
    Bool.or_eq_true] at h
  rcases h with h | h | h | h | h
  · exact hwrites (computes_of_combine .add h)
  · exact hwrites (computes_of_combine .sub h)
  · exact hwrites (computes_of_shift .right h)
  · exact hwrites (computes_of_combine .reverseSub h)
  · exact hwrites (computes_of_shift .left h)

/-- A difference takes back the sum before it. -/
theorem get_of_sub_of_add {u : Word} (hw : w.fits "8XY4" = true) (hu : u.fits "8XY5" = true)
    (hx : u.x = w.x) (hy : u.y = w.y) (hxy : w.x ≠ w.y) (hflag : w.y ≠ flagRegister) :
    ((m.afterWord w).afterWord u).registers.get w.x = m.registers.get w.x := by
  have hadd : m.Computes w _ := computes_of_combine .add hw
  have hsub : (m.afterWord w).Computes u _ := computes_of_combine .sub hu
  have hkept : (m.afterWord w).registers.get w.y = m.registers.get w.y := by
    refine hadd.writes.registers w.y ?_
    rintro (heq | ⟨-, heq⟩)
    · exact hxy heq.symm
    · exact hflag heq
  have hvalue := hsub.value
  rw [hx, hy, hkept, hadd.value] at hvalue
  rw [hvalue]
  exact BitVec.add_sub_cancel ..

/-- **Register arithmetic is exact.**  Take any machine, whatever it has run, and any word with any
two registers `X` and `Y`, which may be the same or the flag register. The word leaves in `X` the
number that it should, computed from what `X` and `Y` held before; its flag, unless it is written
over because `X` is the flag register, makes up for what the byte in `X` has no room for. It writes
nothing but `X` and, where it has one, the flag. So a difference takes back a sum. -/
theorem arithmetic_exact (m : Machine) (w : Word) :
    let a := (m.registers.get w.x).toNat
    let b := (m.registers.get w.y).toNat
    let n := m.afterWord w
    let value := (n.registers.get w.x).toNat
    let flag := n.registers.flag.toNat
    (m.halted = none → m.memory.fetch m.registers.pc = .ok w → m.step = m.executeWord w) ∧
    (w.fits "8XY0" = true → value = b) ∧
    (w.fits "8XY1" = true → value = a ||| b) ∧
    (w.fits "8XY2" = true → value = a &&& b) ∧
    (w.fits "8XY3" = true → value = a ^^^ b) ∧
    (w.fits "7XNN" = true → value = (a + w.low.toNat) % 256) ∧
    (w.fits "8XY4" = true →
      value = (a + b) % 256 ∧ (w.x ≠ flagRegister → a + b = 256 * flag + value)) ∧
    (w.fits "8XY5" = true →
      (value : ℤ) = ((a : ℤ) - b) % 256 ∧
        (w.x ≠ flagRegister → flag = if a > b then 1 else 0)) ∧
    (w.fits "8XY7" = true →
      (value : ℤ) = ((b : ℤ) - a) % 256 ∧
        (w.x ≠ flagRegister → flag = if b > a then 1 else 0)) ∧
    (w.fits "8XY6" = true → value = a / 2 ∧ (w.x ≠ flagRegister → a = 2 * value + flag)) ∧
    (w.fits "8XYE" = true →
      value = 2 * a % 256 ∧ (w.x ≠ flagRegister → 2 * a = 256 * flag + value)) ∧
    (w.fitsAny plainRows = true → m.WritesOnly w (· = w.x)) ∧
    (w.fitsAny carryRows = true → m.WritesOnly w fun z => z = w.x ∨ z = flagRegister) ∧
    ∀ u : Word, w.fits "8XY4" = true → u.fits "8XY5" = true → u.x = w.x → u.y = w.y →
      w.x ≠ w.y → w.y ≠ flagRegister →
      (n.afterWord u).registers.get w.x = m.registers.get w.x := by
  intro a b n value flag
  have hbyte : value < 256 := BitVec.isLt _
  have hvalue {c : Computed} (hc : m.Computes w c) : value = c.value.toNat :=
    congrArg BitVec.toNat hc.value
  refine ⟨step_of_fetched, fun h => hvalue (computes_of_combine .copy h), fun h => ?_, fun h => ?_,
    fun h => ?_, fun h => ?_, fun h => ?_, fun h => ?_, fun h => ?_, fun h => ?_, fun h => ?_,
    writesOnly_of_plain, writesOnly_of_carry, fun u => get_of_sub_of_add⟩
  · exact (hvalue (computes_of_combine .or h)).trans (BitVec.toNat_or ..)
  · exact (hvalue (computes_of_combine .and h)).trans (BitVec.toNat_and ..)
  · exact (hvalue (computes_of_combine .xor h)).trans (BitVec.toNat_xor ..)
  · exact (hvalue (computes_of_addByte h)).trans (BitVec.toNat_add ..)
  · have hc := computes_of_combine (m := m) .add h
    have hsum := Combination.toNat_add (m.registers.get w.x) (m.registers.get w.y)
    rw [← hvalue hc] at hsum
    refine ⟨by omega, fun hne => ?_⟩
    rw [← hc.flag (by simp [Combination.apply]) hne] at hsum
    exact hsum.symm
  · have hc := computes_of_combine (m := m) .sub h
    refine ⟨?_, fun hne => ?_⟩
    · rw [hvalue hc]
      exact Combination.toInt_sub ..
    · exact (hc.flag (by simp [Combination.apply]) hne).trans (Combination.flagNumber_sub ..)
  · have hc := computes_of_combine (m := m) .reverseSub h
    refine ⟨?_, fun hne => ?_⟩
    · rw [hvalue hc]
      exact Combination.toInt_sub ..
    · exact (hc.flag (by simp [Combination.apply]) hne).trans (Combination.flagNumber_sub ..)
  · have hc := computes_of_shift (m := m) .right h
    have hhalf := Direction.toNat_right (m.registers.get w.x)
    have hbit := (Direction.right.apply (m.registers.get w.x)).flagNumber_lt
    rw [← hvalue hc] at hhalf
    refine ⟨by omega, fun hne => ?_⟩
    rw [← hc.flag (by simp [Direction.apply]) hne] at hhalf
    exact hhalf.symm
  · have hc := computes_of_shift (m := m) .left h
    have hdouble := Direction.toNat_left (m.registers.get w.x)
    rw [← hvalue hc] at hdouble
    refine ⟨by omega, fun hne => ?_⟩
    rw [← hc.flag (by simp [Direction.apply]) hne] at hdouble
    exact hdouble.symm

/-- A running machine with 100 in `V1` and 200 in the flag register. -/
def counting : Machine :=
  let m := returning .halt
  m.withRegisters ((m.registers.set ⟨1, by decide⟩ 100).set flagRegister 200)

/-- The flag register as second operand, as the one that is computed, and as both; and a sum that is
taken back. -/
theorem arithmetic_exact_aliased :
    let after := counting.afterWord
    let one : Nibble := ⟨1, by decide⟩
    100 + 200 =
        256 * (after 0x81F4).registers.flag.toNat + ((after 0x81F4).registers.get one).toNat ∧
      (after 0x81F5).registers.flag.toNat = 0 ∧
      ((after 0x8F14).registers.get flagRegister).toNat = 44 ∧
      (((after 0x8FF7).registers.get flagRegister).toNat : ℤ) = ((200 : ℤ) - 200) % 256 ∧
      counting.WritesOnly 0x7F02 (· = flagRegister) ∧
      ((after 0x8124).afterWord 0x8125).registers.get one = 100 := by
  intro after one
  obtain ⟨-, -, -, -, -, -, hsum, -⟩ := arithmetic_exact counting 0x81F4
  obtain ⟨-, -, -, -, -, -, -, hless, -⟩ := arithmetic_exact counting 0x81F5
  obtain ⟨-, -, -, -, -, -, hover, -⟩ := arithmetic_exact counting 0x8F14
  obtain ⟨-, -, -, -, -, -, -, -, hboth, -⟩ := arithmetic_exact counting 0x8FF7
  obtain ⟨-, -, -, -, -, -, -, -, -, -, -, hplain, -⟩ := arithmetic_exact counting 0x7F02
  obtain ⟨-, -, -, -, -, -, -, -, -, -, -, -, -, hback⟩ := arithmetic_exact counting 0x8124
  exact ⟨(hsum (by decide)).2 (by decide), (hless (by decide)).2 (by decide), (hover (by decide)).1,
    (hboth (by decide)).1, hplain (by decide),
    hback 0x8125 (by decide) (by decide) (by decide) (by decide) (by decide) (by decide)⟩

end Machine

end Chip8
