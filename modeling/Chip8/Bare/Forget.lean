import Chip8.Bare.Console
import Chip8.Instruction.Decode

/-!
# Forgetting

A machine becomes a bare one when what is known of its parts is forgotten: the lengths of its arrays
and the bounds of its numbers. The log and the signals are left out.

* `Instruction.bare`, `Fields.bare` : instructions.
* `Registers.bare`, `Drawing.bare` : the parts of a machine.
* `Machine.bare`, `Execution.bare`, `Machine.Reply.bare` : machines, and what is left behind by an
  instruction and by a request.
* `Console.bare`, `Console.Reply.bare` : consoles, and what is left behind by a request.
-/

namespace Chip8

/-! ### Instructions -/

/-- The condition with numbers for registers. -/
def Condition.bare : Condition → Bare.Condition
  | holds x nn => .holds x nn
  | lacks x nn => .lacks x nn
  | equal x y => .equal x y
  | differ x y => .differ x y
  | pressed x => .pressed x
  | released x => .released x

/-- The instruction with numbers for registers and addresses. -/
def Instruction.bare : Instruction → Bare.Instruction
  | clearScreen => .clearScreen
  | ret => .ret
  | jump nnn => .jump nnn.toNat
  | call nnn => .call nnn.toNat
  | jumpOffset nnn => .jumpOffset nnn.toNat
  | skip c => .skip c.bare
  | setByte x nn => .setByte x nn
  | addByte x nn => .addByte x nn
  | combine op x y => .combine op x y
  | shift d x => .shift d x
  | setIndex nnn => .setIndex nnn.toNat
  | addIndex x => .addIndex x
  | glyph x => .glyph x
  | random x nn => .random x nn
  | draw x y n => .draw x y n
  | readDelay x => .readDelay x
  | readKey x => .readKey x
  | setDelay x => .setDelay x
  | setSound x => .setSound x
  | storeDigits x => .storeDigits x
  | store x => .store x
  | load x => .load x
  | unknown w => .unknown w

/-- The parts of a word as numbers. -/
def Fields.bare (f : Fields) : Bare.Fields where
  word := f.word
  family := f.family
  x := f.x
  y := f.y
  n := f.n
  nn := f.nn
  nnn := f.nnn.toNat

/-! ### Machines -/

/-- The registers as bare arrays and numbers. -/
def Registers.bare (r : Registers) : Bare.Registers where
  v := r.v.toList
  index := r.index.toNat
  pc := r.pc
  stack := r.stack.entries

/-- The screen under a drawing as bare rows. -/
def Drawing.bare (d : Drawing) : Bare.Drawing where
  rows := d.screen.rows
  collision := d.collision

/-- The machine as bare arrays and numbers. -/
def Machine.bare (m : Machine) : Bare.Machine where
  name := m.name
  opcode := m.opcode
  image := m.image.cells.toList
  memory := m.memory.cells.toList
  registers := m.registers.bare
  timers := m.timers
  screen := m.screen.rows
  keypad := m.keypad
  generator := m.generator
  config := m.config
  halted := m.halted.map .fault

/-- What an instruction leaves behind, without the log. -/
def Execution.bare (e : Execution) : Bare.Execution where
  machine := e.machine.bare
  flow := e.flow
  effect := e.effect

/-- What a request leaves behind, without the log. -/
def Machine.Reply.bare {α : Type} (r : Machine.Reply α) : Bare.Reply α := ⟨r.result, r.machine.bare⟩

/-! ### Consoles -/

/-- The console around the bare machine. -/
def Console.bare (c : Console) : Bare.Console where
  machine := c.machine.bare
  sounding := c.sounding

/-- What a request leaves behind, without the signals and the log. -/
def Console.Reply.bare {α : Type} (r : Console.Reply α) : Bare.Console.Reply α :=
  ⟨r.result, r.console.bare⟩

end Chip8
