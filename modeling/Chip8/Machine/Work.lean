import Chip8.Machine.Execute

/-!
# The work of an instruction

An instruction is carried out one thing after the other: what it reads, what it checks and what it
writes happen in the order given here. A fault ends the work where it stands and takes nothing
back, so it is the order alone that decides what a faulting instruction leaves behind.

* `Work` : a piece of work on an `Execution`, which may fault.
* `Work.look`, `Work.change`, `Work.attempt` : reading, writing and checking.
* `Work.execute` : the work of each instruction.
-/

namespace Chip8

/-- A piece of work. After a fault the changes made before it stand. -/
abbrev Work := EStateM Fault Execution

namespace Work

/-- What is read from the machine as it is now. -/
def look {α : Type} (f : Machine → α) : Work α := do return f (← get).machine

/-- Changes the machine. -/
def change (f : Machine → Machine) : Work Unit := modify fun e => { e with machine := f e.machine }

/-- Changes the registers. -/
def changeRegisters (f : Registers → Registers) : Work Unit :=
  change fun m => m.withRegisters (f m.registers)

/-- Says where the instruction leads. -/
def lead (flow : Flow) : Work Unit := modify fun e => { e with flow }

/-- Says what others have to know. -/
def tell (effect : Effect) : Work Unit := modify fun e => { e with effect }

/-- Logs an entry. -/
def note (entry : Log.Entry) : Work Unit := modify fun e => { e with log := e.log ++ [entry] }

/-- Goes on with the value, or faults. -/
def attempt {α : Type} : Except Fault α → Work α
  | .ok a => pure a
  | .error f => throw f

/-! ### Registers and the stack -/

/-- The value of register `x`. -/
def register (x : Nibble) : Work Byte := look (·.registers.get x)

/-- Writes register `x`. -/
def setRegister (x : Nibble) (b : Byte) : Work Unit := changeRegisters (·.set x b)

/-- Writes the flag register. -/
def setFlag (c : Bool) : Work Unit := changeRegisters (·.setFlag c)

/-- The value of the index register. -/
def index : Work Nat := look (·.registers.index.toNat)

/-- Writes the low bits of an address to the index register. -/
def setIndex (address : Nat) : Work Unit := changeRegisters (·.setIndex address)

/-- Writes the result of an operation to register `x`, the flag before the value. -/
def put (x : Nibble) (c : Computed) : Work Unit := do
  match c.flag with
  | some flag => setFlag flag
  | none => pure ()
  setRegister x c.value

/-- Takes the address on top of the stack away. -/
def popStack : Work Nat := do
  let stack ← look (·.registers.stack)
  let (target, rest) ← attempt (stack.pop.mapError .stack)
  changeRegisters ({ · with stack := rest })
  return target

/-- Puts the program counter on top of the stack. -/
def pushStack : Work Unit := do
  let stack ← look (·.registers.stack)
  let pc ← look (·.registers.pc)
  let pushed ← attempt ((stack.push pc).mapError .stack)
  changeRegisters ({ · with stack := pushed })

/-! ### Memory and the devices -/

/-- The `n` bytes from address `a` on. -/
def slice (a n : Nat) : Work (List Byte) := do
  let memory ← look (·.memory)
  attempt ((memory.slice a n).mapError .memory)

/-- Writes `bs` from address `a` on. -/
def replace (a : Nat) (bs : List Byte) : Work Unit := do
  let memory ← look (·.memory)
  let changed ← attempt ((memory.replace a bs).mapError .memory)
  change ({ · with memory := changed })

/-- Draws a sprite, and says whether it collides. -/
def drawSprite (x y : Nat) (sprite : List Byte) : Work Bool := do
  let d ← look (·.screen.draw x y sprite)
  change ({ · with screen := d.screen })
  return d.collision

/-- The next random byte. -/
def randomByte : Work Byte := do
  let (b, g) ← look (·.generator.next)
  change ({ · with generator := g })
  return b

/-- Changes the timers. -/
def changeTimers (f : Timers → Timers) : Work Unit :=
  change fun m => { m with timers := f m.timers }

/-! ### Instructions -/

/-- The work of an instruction, in order. -/
def execute : Instruction → Work Unit
  | .clearScreen => do
    change ({ · with screen := .blank })
    tell .cleared
  | .ret => do
    let target ← popStack
    note (.returned target)
    lead (.jump target)
  | .jump nnn => lead (.jump nnn.toNat)
  | .call nnn => do
    pushStack
    let depth ← look (·.registers.stack.depth)
    note (.called nnn.toNat depth)
    lead (.jump nnn.toNat)
  | .jumpOffset nnn => do
    let offset ← register Registers.offsetRegister
    lead (.jump (nnn.toNat + offset.toNat))
  | .skip c => do
    let holds ← look fun m => c.test m.registers m.keypad
    lead (.skipIf holds)
  | .setByte x nn => setRegister x nn
  | .addByte x nn => do
    let b ← register x
    setRegister x (b + nn)
  | .combine op x y => do
    let a ← register x
    let b ← register y
    put x (op.apply a b)
  | .shift d x => do
    let a ← register x
    put x (d.apply a)
  | .setIndex nnn => setIndex nnn.toNat
  | .addIndex x => do
    let i ← index
    let b ← register x
    setIndex (i + b.toNat)
  | .glyph x => do
    let digit ← register x
    setIndex (Font.addressOf digit.toNat)
  | .random x nn => do
    let b ← randomByte
    setRegister x (b &&& nn)
  | .draw x y n => do
    let sprite ← slice (← index) n
    let left ← register x
    let top ← register y
    let collision ← drawSprite left.toNat top.toNat sprite
    setFlag collision
    tell .drawn
  | .readDelay x => do
    let b ← look (·.timers.delay)
    setRegister x b
  | .readKey x => do
    match ← look (·.keypad.firstPressed) with
    | some k => setRegister x (.ofNat 8 k)
    | none => pure ()
  | .setDelay x => do
    let b ← register x
    changeTimers ({ · with delay := b })
  | .setSound x => do
    let b ← register x
    changeTimers ({ · with sound := b })
  | .storeDigits x => do
    let b ← register x
    replace (← index) b.decimal
  | .store x => do
    let i ← index
    let bs ← look (·.registers.upTo x)
    replace i bs
    setIndex (i + x + 1)
  | .load x => do
    let i ← index
    let bs ← slice i (x + 1)
    changeRegisters (·.fill x bs)
    setIndex (i + x + 1)
  | .unknown w => do
    note (.unknownWord w)
    tell (.unsupported w)

end Work

end Chip8
