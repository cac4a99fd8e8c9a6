import Chip8.Instruction.Basic

/-!
# Decoding

Every word is split into fixed fields, and the fields choose the instruction. A word that matches no
row of the table decodes to `Instruction.unknown`.

* `Fields` : the parts of a word.
* `Instruction.ofFields`, `Instruction.ofWord` : the table.
-/

namespace Chip8

/-- The parts of an instruction word. -/
structure Fields where
  /-- The word itself. -/
  word : Word
  /-- Bits 12 to 15, the family of the instruction. -/
  family : Nibble
  /-- Bits 8 to 11. -/
  x : Nibble
  /-- Bits 4 to 7. -/
  y : Nibble
  /-- Bits 0 to 3. -/
  n : Nibble
  /-- Bits 0 to 7. -/
  nn : Byte
  /-- Bits 0 to 11. -/
  nnn : Address
  deriving DecidableEq, Repr

/-- Splits a word into its parts. -/
def Fields.ofWord (w : Word) : Fields where
  word := w
  family := (w.extractLsb' 12 4).toFin
  x := (w.extractLsb' 8 4).toFin
  y := (w.extractLsb' 4 4).toFin
  n := (w.extractLsb' 0 4).toFin
  nn := w.extractLsb' 0 8
  nnn := w.extractLsb' 0 12

namespace Instruction

variable (f : Fields)

/-- The family `0`: two whole words. -/
def ofSystem : Instruction :=
  match f.word.toNat with
  | 0x00E0 => clearScreen
  | 0x00EE => ret
  | _ => unknown f.word

/-- The family `8`: register arithmetic, chosen by the last digit. -/
def ofArithmetic : Instruction :=
  match f.n.val with
  | 0x0 => combine .copy f.x f.y
  | 0x1 => combine .or f.x f.y
  | 0x2 => combine .and f.x f.y
  | 0x3 => combine .xor f.x f.y
  | 0x4 => combine .add f.x f.y
  | 0x5 => combine .sub f.x f.y
  | 0x6 => shift .right f.x
  | 0x7 => combine .reverseSub f.x f.y
  | 0xE => shift .left f.x
  | _ => unknown f.word

/-- The family `E`: keys, chosen by the last byte. -/
def ofKeys : Instruction :=
  match f.nn.toNat with
  | 0x9E => skip (.pressed f.x)
  | 0xA1 => skip (.released f.x)
  | _ => unknown f.word

/-- The family `F`: timers, the index and blocks of registers, chosen by the last byte. -/
def ofDevices : Instruction :=
  match f.nn.toNat with
  | 0x07 => readDelay f.x
  | 0x0A => readKey f.x
  | 0x15 => setDelay f.x
  | 0x18 => setSound f.x
  | 0x1E => addIndex f.x
  | 0x29 => glyph f.x
  | 0x33 => storeDigits f.x
  | 0x55 => store f.x
  | 0x65 => load f.x
  | _ => unknown f.word

/-- The instruction that the fields of a word choose. -/
def ofFields : Instruction :=
  match f.family.val with
  | 0x0 => ofSystem f
  | 0x1 => jump f.nnn
  | 0x2 => call f.nnn
  | 0x3 => skip (.holds f.x f.nn)
  | 0x4 => skip (.lacks f.x f.nn)
  | 0x5 => if f.n.val = 0 then skip (.equal f.x f.y) else unknown f.word
  | 0x6 => setByte f.x f.nn
  | 0x7 => addByte f.x f.nn
  | 0x8 => ofArithmetic f
  | 0x9 => if f.n.val = 0 then skip (.differ f.x f.y) else unknown f.word
  | 0xA => setIndex f.nnn
  | 0xB => jumpOffset f.nnn
  | 0xC => random f.x f.nn
  | 0xD => draw f.x f.y f.n
  | 0xE => ofKeys f
  | _ => ofDevices f

/-- The instruction of a word. -/
def ofWord (w : Word) : Instruction := ofFields (.ofWord w)

end Instruction

end Chip8
