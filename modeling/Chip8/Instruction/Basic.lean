import Chip8.Word

/-!
# Instructions

What a word can tell the machine to do. `X` and `Y` stand for register numbers, `N`, `NN` and `NNN`
for the low 4, 8 and 12 bits of the word.

* `Condition` : what a skip asks.
* `Combination` : how two registers are combined into the first.
* `Direction` : which way a register is shifted.
* `Instruction` : one constructor per kind of work.
-/

namespace Chip8

/-- What a skip asks of the state before it. -/
inductive Condition where
  /-- `3XNN`: register `x` holds `nn`. -/
  | holds (x : Nibble) (nn : Byte)
  /-- `4XNN`: register `x` does not hold `nn`. -/
  | lacks (x : Nibble) (nn : Byte)
  /-- `5XY0`: registers `x` and `y` are equal. -/
  | equal (x y : Nibble)
  /-- `9XY0`: registers `x` and `y` differ. -/
  | differ (x y : Nibble)
  /-- `EX9E`: the key in register `x` is pressed. -/
  | pressed (x : Nibble)
  /-- `EXA1`: the key in register `x` is not pressed. -/
  | released (x : Nibble)
  deriving DecidableEq, Repr

/-- How registers `x` and `y` are combined into `x`. -/
inductive Combination where
  /-- `8XY0`: the value of `y`. -/
  | copy
  /-- `8XY1`: the bits in either. -/
  | or
  /-- `8XY2`: the bits in both. -/
  | and
  /-- `8XY3`: the bits in exactly one. -/
  | xor
  /-- `8XY4`: the sum; the flag is the carry. -/
  | add
  /-- `8XY5`: `x` less `y`; the flag says that `x` is greater. -/
  | sub
  /-- `8XY7`: `y` less `x`; the flag says that `y` is greater. -/
  | reverseSub
  deriving DecidableEq, Repr

/-- Which way a register is shifted; the flag is the bit that falls out. -/
inductive Direction where
  /-- `8XYE`. -/
  | left
  /-- `8XY6`. -/
  | right
  deriving DecidableEq, Repr

/-- What a word tells the machine to do. -/
inductive Instruction where
  /-- `00E0`: turns every pixel off. -/
  | clearScreen
  /-- `00EE`: continues behind the latest call. -/
  | ret
  /-- `1NNN`: continues at `nnn`. -/
  | jump (nnn : Address)
  /-- `2NNN`: remembers where it is and continues at `nnn`. -/
  | call (nnn : Address)
  /-- `BNNN`: continues at `nnn` plus the first register. -/
  | jumpOffset (nnn : Address)
  /-- `3XNN`, `4XNN`, `5XY0`, `9XY0`, `EX9E`, `EXA1`: skips the next word on a condition. -/
  | skip (c : Condition)
  /-- `6XNN`: register `x` becomes `nn`. -/
  | setByte (x : Nibble) (nn : Byte)
  /-- `7XNN`: adds `nn` to register `x`, without a carry. -/
  | addByte (x : Nibble) (nn : Byte)
  /-- `8XY0` to `8XY5` and `8XY7`: combines register `y` into register `x`. -/
  | combine (op : Combination) (x y : Nibble)
  /-- `8XY6` and `8XYE`: shifts register `x` by one bit. -/
  | shift (d : Direction) (x : Nibble)
  /-- `ANNN`: the index becomes `nnn`. -/
  | setIndex (nnn : Address)
  /-- `FX1E`: adds register `x` to the index. -/
  | addIndex (x : Nibble)
  /-- `FX29`: the index becomes the address of the glyph for register `x`. -/
  | glyph (x : Nibble)
  /-- `CXNN`: register `x` becomes a random byte, of which `nn` masks the bits. -/
  | random (x : Nibble) (nn : Byte)
  /-- `DXYN`: draws the `n` bytes at the index at column `x` and row `y`. -/
  | draw (x y n : Nibble)
  /-- `FX07`: register `x` becomes the delay timer. -/
  | readDelay (x : Nibble)
  /-- `FX0A`: register `x` becomes the lowest pressed key, if there is one. -/
  | readKey (x : Nibble)
  /-- `FX15`: the delay timer becomes register `x`. -/
  | setDelay (x : Nibble)
  /-- `FX18`: the sound timer becomes register `x`. -/
  | setSound (x : Nibble)
  /-- `FX33`: writes the three decimal digits of register `x` at the index. -/
  | storeDigits (x : Nibble)
  /-- `FX55`: writes the registers up to `x` at the index and moves the index behind them. -/
  | store (x : Nibble)
  /-- `FX65`: reads the registers up to `x` from the index and moves the index behind them. -/
  | load (x : Nibble)
  /-- A word that is no instruction. -/
  | unknown (w : Word)
  deriving DecidableEq, Repr

end Chip8
