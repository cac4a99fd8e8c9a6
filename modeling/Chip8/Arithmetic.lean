import Chip8.Instruction.Basic

/-!
# Register arithmetic

The values and flags of the register operations, on the operands alone.

* `Combination.apply` : the combination of two bytes, with its flag if it has one.
* `Direction.apply` : the shift of a byte and the bit that falls out.
* `Byte.decimal` : the hundreds, tens and ones of a byte.
-/

namespace Chip8

/-- What an operation leaves behind. -/
structure Computed where
  /-- The value for the first operand. -/
  value : Byte
  /-- The value for the flag, if the operation has one. -/
  flag : Option Bool := none
  deriving DecidableEq, Repr

/-- The combination of `a` and `b`. -/
def Combination.apply (a b : Byte) : Combination → Computed
  | copy => { value := b }
  | or => { value := a ||| b }
  | and => { value := a &&& b }
  | xor => { value := a ^^^ b }
  | add => { value := a + b, flag := some (decide (255 < a.toNat + b.toNat)) }
  | sub => { value := a - b, flag := some (decide (b < a)) }
  | reverseSub => { value := b - a, flag := some (decide (a < b)) }

/-- The shift of `a` by one bit. -/
def Direction.apply (a : Byte) : Direction → Computed
  | left => { value := a <<< 1, flag := some a.msb }
  | right => { value := a >>> 1, flag := some (a.getLsbD 0) }

/-- The three decimal digits of `b`, the hundreds first. -/
def Byte.decimal (b : Byte) : List Byte := [b / 100, b / 10 % 10, b % 10]

end Chip8
