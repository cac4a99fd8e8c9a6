import Chip8.Arithmetic
import Chip8.Machine.Basic
import Chip8.Screen.Sprite

/-!
# The effect of an instruction

The effect of a single instruction on a machine whose program counter already points behind it, told
as a whole: an instruction either has its whole effect or faults and has none. How it comes about,
one thing after the other, is told by `Chip8.Machine.Work`.

* `Effect` : what the devices around the machine have to know.
* `Execution` : the machine after an instruction, where it leads and what was logged.
* `Condition.test` : the answer to a skip's question.
* `Machine.execute` : one case for each instruction.
-/

namespace Chip8

/-- What a step did, as far as others have to know. -/
inductive Effect where
  /-- Nothing to tell. -/
  | none
  /-- The screen was cleared. -/
  | cleared
  /-- The screen was drawn to. -/
  | drawn
  /-- The word is no instruction. -/
  | unsupported (word : Word)
  /-- The instruction faulted and was passed over. -/
  | ignored (fault : Fault)
  deriving DecidableEq, Repr

/-- The error behind a step without an effect. -/
def Effect.error? : Effect → Option Error
  | unsupported word => some (.unknownWord word)
  | ignored fault => some (.fault fault)
  | none | cleared | drawn => Option.none

/-- What an instruction leaves behind. -/
structure Execution where
  /-- The machine, with the program counter still behind the instruction. -/
  machine : Machine
  /-- Where the instruction leads. -/
  flow : Flow := .next
  /-- What others have to know. -/
  effect : Effect := .none
  /-- What was logged. -/
  log : Log := []

namespace Condition

/-- The condition holds for the registers `r` and the keys `p`. -/
def test (r : Registers) (p : Keypad) : Condition → Bool
  | holds x nn => r.get x == nn
  | lacks x nn => r.get x != nn
  | equal x y => r.get x == r.get y
  | differ x y => r.get x != r.get y
  | pressed x => p.isPressed (r.get x).toNat
  | released x => !p.isPressed (r.get x).toNat

end Condition

/-- Writes the result of an operation to register `x`, the flag before the value. -/
def Registers.put (r : Registers) (x : Nibble) (c : Computed) : Registers :=
  (match c.flag with
    | some flag => r.setFlag flag
    | none => r).set x c.value

/-- Moves the index behind the block of registers up to `x`. -/
def Registers.passBlock (r : Registers) (x : Nibble) : Registers :=
  r.setIndex (r.index.toNat + x + 1)

namespace Machine

variable (m : Machine)

/-- The machine with changed registers. -/
def withRegisters (r : Registers) : Machine := { m with registers := r }

@[simp] theorem registers_withRegisters (r : Registers) : (m.withRegisters r).registers = r := rfl

@[simp] theorem withRegisters_withRegisters (r s : Registers) :
    (m.withRegisters r).withRegisters s = m.withRegisters s := rfl

/-- The machine with register `x` changed. -/
def setRegister (x : Nibble) (b : Byte) : Machine := m.withRegisters (m.registers.set x b)

/-- `00EE`: back behind the latest call. -/
def executeReturn : Except Fault Execution :=
  match m.registers.stack.pop with
  | .error e => .error (.stack e)
  | .ok (target, rest) =>
    .ok { machine := m.withRegisters { m.registers with stack := rest }
          flow := .jump target
          log := [.returned target] }

/-- `2NNN`: to `nnn`, with the way back on the stack. -/
def executeCall (nnn : Address) : Except Fault Execution :=
  match m.registers.stack.push m.registers.pc with
  | .error e => .error (.stack e)
  | .ok stack =>
    .ok { machine := m.withRegisters { m.registers with stack := stack }
          flow := .jump nnn.toNat
          log := [.called nnn.toNat stack.depth] }

/-- `CXNN`: a random byte, masked by `nn`. -/
def executeRandom (x : Nibble) (nn : Byte) : Machine :=
  let (b, g) := m.generator.next
  { m.setRegister x (b &&& nn) with generator := g }

/-- `DXYN`: the `n` rows at the index, with their upper left corner at the values of registers `x`
and `y`. -/
def executeDraw (x y n : Nibble) : Except Fault Execution :=
  match m.memory.slice m.registers.index.toNat n with
  | .error e => .error (.memory e)
  | .ok sprite =>
    let d := m.screen.draw (m.registers.get x).toNat (m.registers.get y).toNat sprite
    .ok { machine := { m with screen := d.screen, registers := m.registers.setFlag d.collision }
          effect := .drawn }

/-- Writes bytes at the index. -/
def storeAtIndex (bs : List Byte) : Except Fault Machine :=
  match m.memory.replace m.registers.index.toNat bs with
  | .error e => .error (.memory e)
  | .ok memory => .ok { m with memory := memory }

/-- `FX65`: the registers up to `x` from the bytes at the index. -/
def loadBlock (x : Nibble) : Except Fault Machine :=
  match m.memory.slice m.registers.index.toNat (x + 1) with
  | .error e => .error (.memory e)
  | .ok bs => .ok (m.withRegisters ((m.registers.fill x bs).passBlock x))

/-- The effect of an instruction. -/
def execute (i : Instruction) : Except Fault Execution :=
  let r := m.registers
  match i with
  | .clearScreen => .ok { machine := { m with screen := .blank }, effect := .cleared }
  | .ret => m.executeReturn
  | .jump nnn => .ok { machine := m, flow := .jump nnn.toNat }
  | .call nnn => m.executeCall nnn
  | .jumpOffset nnn =>
    .ok { machine := m, flow := .jump (nnn.toNat + (r.get Registers.offsetRegister).toNat) }
  | .skip c => .ok { machine := m, flow := .skipIf (c.test r m.keypad) }
  | .setByte x nn => .ok { machine := m.setRegister x nn }
  | .addByte x nn => .ok { machine := m.setRegister x (r.get x + nn) }
  | .combine op x y =>
    .ok { machine := m.withRegisters (r.put x (op.apply (r.get x) (r.get y))) }
  | .shift d x => .ok { machine := m.withRegisters (r.put x (d.apply (r.get x))) }
  | .setIndex nnn => .ok { machine := m.withRegisters { r with index := nnn } }
  | .addIndex x =>
    .ok { machine := m.withRegisters (r.setIndex (r.index.toNat + (r.get x).toNat)) }
  | .glyph x => .ok { machine := m.withRegisters (r.setIndex (Font.addressOf (r.get x).toNat)) }
  | .random x nn => .ok { machine := m.executeRandom x nn }
  | .draw x y n => m.executeDraw x y n
  | .readDelay x => .ok { machine := m.setRegister x m.timers.delay }
  | .readKey x =>
    match m.keypad.firstPressed with
    | some k => .ok { machine := m.setRegister x (.ofNat 8 k) }
    | none => .ok { machine := m }
  | .setDelay x => .ok { machine := { m with timers := { m.timers with delay := r.get x } } }
  | .setSound x => .ok { machine := { m with timers := { m.timers with sound := r.get x } } }
  | .storeDigits x =>
    (m.storeAtIndex (r.get x).decimal).map fun machine => { machine }
  | .store x =>
    (m.storeAtIndex (r.upTo x)).map fun machine =>
      { machine := machine.withRegisters (r.passBlock x) }
  | .load x => (m.loadBlock x).map fun machine => { machine }
  | .unknown w => .ok { machine := m, effect := .unsupported w, log := [.unknownWord w] }

end Machine

end Chip8
