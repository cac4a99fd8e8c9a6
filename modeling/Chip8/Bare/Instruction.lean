import Chip8.Bare.Basic
import Chip8.Instruction.Basic

/-!
# Bare instructions

Instructions whose operands are plain numbers. What is known of the operands is only what the masks
and shifts leave over that take a word apart.

* `Bare.Condition`, `Bare.Instruction` : the instructions, with numbers for registers and addresses.
* `Bare.Fields`, `Bare.split` : the parts of a word.
* `Bare.decode` : the instruction of a word.
-/

namespace Chip8

namespace Bare

/-- What a skip asks for, as in `Chip8.Condition`. -/
inductive Condition where
  | holds (x : Nat) (nn : Byte)
  | lacks (x : Nat) (nn : Byte)
  | equal (x y : Nat)
  | differ (x y : Nat)
  | pressed (x : Nat)
  | released (x : Nat)
  deriving DecidableEq, Repr

/-- What a word tells a bare machine to do, as in `Chip8.Instruction`. -/
inductive Instruction where
  | clearScreen
  | ret
  | jump (nnn : Nat)
  | call (nnn : Nat)
  | jumpOffset (nnn : Nat)
  | skip (c : Condition)
  | setByte (x : Nat) (nn : Byte)
  | addByte (x : Nat) (nn : Byte)
  | combine (op : Combination) (x y : Nat)
  | shift (d : Direction) (x : Nat)
  | setIndex (nnn : Nat)
  | addIndex (x : Nat)
  | glyph (x : Nat)
  | random (x : Nat) (nn : Byte)
  | draw (x y n : Nat)
  | readDelay (x : Nat)
  | readKey (x : Nat)
  | setDelay (x : Nat)
  | setSound (x : Nat)
  | storeDigits (x : Nat)
  | store (x : Nat)
  | load (x : Nat)
  | unknown (w : Word)
  deriving DecidableEq, Repr

/-- The parts of an instruction word, as numbers. -/
structure Fields where
  word : Word
  family : Nat
  x : Nat
  y : Nat
  n : Nat
  nn : Byte
  nnn : Nat
  deriving DecidableEq, Repr

/-- Takes a word apart. -/
def split (w : Word) : Except Panic Fields := do
  let family ← shiftRight (w &&& 0xF000) 12
  let x ← shiftRight (w &&& 0x0FFF &&& 0xFF00) 8
  let y ← shiftRight (w &&& 0x00F0) 4
  return {
    word := w
    family := family.toNat
    x := x.toNat
    y := y.toNat
    n := (w &&& 0x000F).toNat
    nn := (w &&& 0x00FF).setWidth 8
    nnn := (w &&& 0x0FFF).toNat }

namespace Instruction

variable (f : Fields)

/-- The instructions of family 0. -/
def ofSystem : Instruction :=
  match f.word.toNat with
  | 0x00E0 => clearScreen
  | 0x00EE => ret
  | _ => unknown f.word

/-- The instructions of family 8. -/
def ofArithmetic : Instruction :=
  match f.n with
  | 0x0 => combine .copy f.x f.y
  | 0x1 => combine .or f.x f.y
  | 0x2 => combine .and f.x f.y
  | 0x3 => combine .xor f.x f.y
  | 0x4 => combine .add f.x f.y
  | 0x5 => combine .sub f.x f.y
  | 0x6 => shift .right f.x
  | 0x7 => combine .reverseSub f.x f.y
  | 0xE => shift .left f.x
  | _ => unknown f.word

/-- The instructions of family E. -/
def ofKeys : Instruction :=
  match f.nn.toNat with
  | 0x9E => skip (.pressed f.x)
  | 0xA1 => skip (.released f.x)
  | _ => unknown f.word

/-- The instructions of family F. -/
def ofDevices : Instruction :=
  match f.nn.toNat with
  | 0x07 => readDelay f.x
  | 0x0A => readKey f.x
  | 0x15 => setDelay f.x
  | 0x18 => setSound f.x
  | 0x1E => addIndex f.x
  | 0x29 => glyph f.x
  | 0x33 => storeDigits f.x
  | 0x55 => store f.x
  | 0x65 => load f.x
  | _ => unknown f.word

/-- The instruction that the parts of a word choose. -/
def ofFields : Instruction :=
  match f.family with
  | 0x0 => ofSystem f
  | 0x1 => jump f.nnn
  | 0x2 => call f.nnn
  | 0x3 => skip (.holds f.x f.nn)
  | 0x4 => skip (.lacks f.x f.nn)
  | 0x5 => if f.n = 0 then skip (.equal f.x f.y) else unknown f.word
  | 0x6 => setByte f.x f.nn
  | 0x7 => addByte f.x f.nn
  | 0x8 => ofArithmetic f
  | 0x9 => if f.n = 0 then skip (.differ f.x f.y) else unknown f.word
  | 0xA => setIndex f.nnn
  | 0xB => jumpOffset f.nnn
  | 0xC => random f.x f.nn
  | 0xD => draw f.x f.y f.n
  | 0xE => ofKeys f
  | 0xF => ofDevices f
  | _ => unknown f.word

end Instruction

/-- The instruction of a word. -/
def decode (w : Word) : Except Panic Instruction := do
  let fields ← split w
  return .ofFields fields

end Bare

end Chip8
