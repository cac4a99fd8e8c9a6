import Chip8.Bare.Instruction
import Chip8.Machine.Run

/-!
# Bare machines

A machine whose registers, memory and screen are bare arrays. What it does, it does in the order of
`Chip8.Machine.Work` and `Chip8.Machine.Step`; but work ends at a fault, which the policy decides
about, or at a panic, about which nobody decides.

* `Bare.Machine` : the state.
* `Bare.Work`, `Bare.Stop` : a piece of work, and why it may end early.
* `Bare.execute` : the work of each instruction.
* `Bare.Machine.step`, `Bare.Machine.perform`, `Bare.Machine.performAll` : one instruction, and all
  that can be asked.
* `Bare.Machine.new`, `Bare.Machine.load`, `Bare.Machine.restart` : the ways to set one up.

The timers, the keypad and the random bytes are those of a `Chip8.Machine`: no index and no sum that
has to fit occurs in what they do. Nothing is logged.
-/

namespace Chip8

namespace Bare

/-- The registers of a bare machine. -/
structure Registers where
  /-- The registers that words name, by number. -/
  v : List Byte
  /-- The index register. -/
  index : Nat
  /-- The program counter. -/
  pc : Nat
  /-- The return addresses, the newest first. -/
  stack : List Nat

/-- The state of a bare machine. -/
structure Machine where
  /-- The name of its program. -/
  name : String
  /-- The word that was fetched last. -/
  opcode : Word
  /-- The memory as it was after loading. -/
  image : List Byte
  memory : List Byte
  registers : Registers
  timers : Timers
  /-- The pixels, row by row. -/
  screen : List (List Bool)
  /-- The keys as the machine sees them. -/
  keypad : Keypad
  /-- The random bytes. -/
  generator : Generator
  /-- The choices made for it. -/
  config : Config
  /-- The error that halted it. -/
  halted : Option Error

/-- What the work of an instruction leaves behind. -/
structure Execution where
  /-- The machine so far. -/
  machine : Machine
  /-- Where the instruction leads. -/
  flow : Flow := .next
  /-- What others have to know. -/
  effect : Effect := .none

/-- Why work ends early. -/
inductive Stop where
  /-- The instruction faults. -/
  | fault (f : Fault)
  /-- An array or a number of bits does not allow what is done with it. -/
  | panic (p : Panic)
  deriving DecidableEq

/-- A piece of work. After a fault the changes made before it stand. -/
abbrev Work := EStateM Stop Execution

namespace Work

/-- What is read from the machine as it is now. -/
def look {α : Type} (f : Machine → α) : Work α := do return f (← get).machine

/-- Changes the machine. -/
def change (f : Machine → Machine) : Work Unit := modify fun e => { e with machine := f e.machine }

/-- Changes the registers. -/
def changeRegisters (f : Registers → Registers) : Work Unit :=
  change fun m => { m with registers := f m.registers }

/-- Says where the instruction leads. -/
def lead (flow : Flow) : Work Unit := modify fun e => { e with flow }

/-- Says what others have to know. -/
def tell (effect : Effect) : Work Unit := modify fun e => { e with effect }

/-- Goes on with the value, or faults. -/
def attempt {α : Type} : Except Fault α → Work α
  | .ok a => pure a
  | .error f => throw (.fault f)

/-- Goes on with the value, or panics. -/
def demand {α : Type} : Except Panic α → Work α
  | .ok a => pure a
  | .error p => throw (.panic p)

/-! ### Registers and the stack -/

/-- The value of register `x`. -/
def register (x : Nat) : Work Byte := do
  let v ← look (·.registers.v)
  demand (entry v x)

/-- Writes register `x`. -/
def setRegister (x : Nat) (b : Byte) : Work Unit := do
  let v ← look (·.registers.v)
  let changed ← demand (putEntry v x b)
  changeRegisters ({ · with v := changed })

/-- Writes the flag register. -/
def setFlag (c : Bool) : Work Unit := setRegister 15 (if c then 1 else 0)

/-- Copies `bs` over the registers up to and including `x`. -/
def fillRegisters (x : Nat) (bs : List Byte) : Work Unit := do
  let v ← look (·.registers.v)
  let filled ← demand (within v 0 (x + 1) (copy bs))
  changeRegisters ({ · with v := filled })

/-- The value of the index register. -/
def index : Work Nat := look (·.registers.index)

/-- Writes the low bits of an address to the index register. -/
def setIndex (address : Nat) : Work Unit :=
  changeRegisters ({ · with index := address &&& Memory.mask })

/-- Writes the result of an operation to register `x`, the flag before the value. -/
def put (x : Nat) (c : Computed) : Work Unit := do
  match c.flag with
  | some flag => setFlag flag
  | none => pure ()
  setRegister x c.value

/-- Takes the address on top of the stack away. -/
def popStack : Work Nat := do
  let stack ← look (·.registers.stack)
  let (target, rest) ← attempt ((pop stack).mapError .stack)
  changeRegisters ({ · with stack := rest })
  return target

/-- Puts the program counter on top of the stack. -/
def pushStack : Work Unit := do
  let stack ← look (·.registers.stack)
  let pc ← look (·.registers.pc)
  let pushed ← attempt ((push stack pc).mapError .stack)
  changeRegisters ({ · with stack := pushed })

/-! ### Memory and the devices -/

/-- The `n` bytes from address `a` on. -/
def slice (a n : Nat) : Work (List Byte) := do
  let cells ← look (·.memory)
  let last ← attempt ((stop a n).mapError .memory)
  demand (part cells a last)

/-- Changes the `n` bytes from address `a` on. -/
def changeSlice (a n : Nat) (f : List Byte → Except Panic (List Byte)) : Work Unit := do
  let cells ← look (·.memory)
  let last ← attempt ((stop a n).mapError .memory)
  let changed ← demand (within cells a last f)
  change ({ · with memory := changed })

/-- Copies the registers up to and including `x` to the cells from address `a` on. The block of
cells is there before the registers are read for it. -/
def storeRegisters (a x : Nat) : Work Unit := do
  let v ← look (·.registers.v)
  changeSlice a (x + 1) fun block => do
    let bs ← part v 0 (x + 1)
    copy bs block

/-- Draws a sprite, and says whether it collides. -/
def drawSprite (x y : Nat) (sprite : List Byte) : Work Bool := do
  let rows ← look (·.screen)
  let d ← demand (drawRows x y 0 sprite { rows })
  change ({ · with screen := d.rows })
  return d.collision

/-- The next random byte, handed out in a buffer of one. -/
def randomByte : Work Byte := do
  let (b, g) ← look (·.generator.next)
  change ({ · with generator := g })
  demand (entry [b] 0)

/-- Changes the timers. -/
def changeTimers (f : Timers → Timers) : Work Unit :=
  change fun m => { m with timers := f m.timers }

end Work

/-! ### Operands -/

/-- Whether a condition holds; of the key that a register names, only the number is read. -/
def Condition.test : Condition → Work Bool
  | holds x nn => do return (← Work.register x) == nn
  | lacks x nn => do return (← Work.register x) != nn
  | equal x y => do return (← Work.register x) == (← Work.register y)
  | differ x y => do return (← Work.register x) != (← Work.register y)
  | pressed x => do
    let key ← Work.register x
    let keypad ← Work.look (·.keypad)
    return keypad.isPressed key.toNat
  | released x => do
    let key ← Work.register x
    let keypad ← Work.look (·.keypad)
    return !keypad.isPressed key.toNat

/-- The combination of `a` and `b`. A sum is taken in twice the width, where it fits. -/
def combine (a b : Byte) : Combination → Except Panic Computed
  | .copy => return { value := b }
  | .or => return { value := a ||| b }
  | .and => return { value := a &&& b }
  | .xor => return { value := a ^^^ b }
  | .add => do
    let sum ← add (a.setWidth 16) (b.setWidth 16)
    return { value := (sum &&& 0xFF).setWidth 8, flag := some (decide (0xFF < sum)) }
  | .sub => return { value := a - b, flag := some (decide (b < a)) }
  | .reverseSub => return { value := b - a, flag := some (decide (a < b)) }

/-- The result of a shift, with the bit that is shifted out. -/
def shift (a : Byte) : Direction → Except Panic Computed
  | .left => do
    let top ← shiftRight a 7
    return { value := a <<< 1, flag := some (top &&& 1 == 1) }
  | .right => do
    let moved ← shiftRight a 1
    return { value := moved, flag := some (a &&& 1 == 1) }

/-! ### Instructions -/

section Execute

open Chip8.Bare.Work

/-- The work of an instruction, in order. -/
def execute : Instruction → Work Unit
  | .clearScreen => do
    change fun m => { m with screen := clear m.screen }
    tell .cleared
  | .ret => do
    let target ← popStack
    lead (.jump target)
  | .jump nnn => lead (.jump nnn)
  | .call nnn => do
    pushStack
    lead (.jump nnn)
  | .jumpOffset nnn => do
    let offset ← register 0
    lead (.jump (nnn + offset.toNat))
  | .skip c => do
    let holds ← c.test
    lead (.skipIf holds)
  | .setByte x nn => setRegister x nn
  | .addByte x nn => do
    let b ← register x
    setRegister x (b + nn)
  | .combine op x y => do
    let a ← register x
    let b ← register y
    let c ← demand (combine a b op)
    put x c
  | .shift d x => do
    let a ← register x
    let c ← demand (shift a d)
    put x c
  | .setIndex nnn => setIndex nnn
  | .addIndex x => do
    let i ← index
    let b ← register x
    setIndex (i + b.toNat)
  | .glyph x => do
    let digit ← register x
    setIndex (Font.location + digit.toNat * Font.glyphSize)
  | .random x nn => do
    let b ← randomByte
    setRegister x (b &&& nn)
  | .draw x y n => do
    let sprite ← slice (← index) n
    let left ← register x
    let top ← register y
    let collision ← drawSprite left.toNat top.toNat sprite
    setFlag collision
    tell .drawn
  | .readDelay x => do
    let b ← look (·.timers.delay)
    setRegister x b
  | .readKey x => do
    match ← look (·.keypad.firstPressed) with
    | some k => setRegister x (.ofNat 8 k)
    | none => pure ()
  | .setDelay x => do
    let b ← register x
    changeTimers ({ · with delay := b })
  | .setSound x => do
    let b ← register x
    changeTimers ({ · with sound := b })
  | .storeDigits x => do
    let b ← register x
    changeSlice (← index) 3 fun block => do
      let block ← putEntry block 0 (b / 100)
      let block ← putEntry block 1 (b / 10 % 10)
      putEntry block 2 (b % 10)
  | .store x => do
    let i ← index
    storeRegisters i x
    setIndex (i + x + 1)
  | .load x => do
    let i ← index
    let bs ← slice i (x + 1)
    fillRegisters x bs
    setIndex (i + x + 1)
  | .unknown w => tell (.unsupported w)

end Execute

/-! ### Steps -/

/-- What a request to a bare machine leaves behind. -/
structure Reply (α : Type) where
  /-- The answer. -/
  result : α
  /-- The machine afterwards. -/
  machine : Machine

namespace Machine

variable (m : Machine)

/-- Halts on an error. -/
def halt (e : Error) : Reply (Except Error Effect) where
  result := .error e
  machine := { m with halted := some e }

/-- Halts on the fault of an instruction, or passes over it if that is the policy and the error is
one that can be passed over. -/
def settle (f : Fault) : Reply (Except Error Effect) :=
  match m.config.policy with
  | .ignore =>
    if (Error.fault f).Recoverable then ⟨.ok (.ignored f), m⟩ else m.halt (.fault f)
  | .halt => m.halt (.fault f)

/-- The machine after the word `w` was fetched. -/
def fetched (w : Word) : Machine :=
  { m with opcode := w, registers := { m.registers with pc := m.registers.pc + Word.size } }

/-- The machine after its program counter has gone where an instruction leads. -/
def follow (f : Flow) : Machine :=
  { m with registers := { m.registers with pc := f.apply m.registers.pc } }

/-- What a step leaves behind whose instruction's work ended in the given way. -/
def conclude :
    EStateM.Result Stop Execution Unit → Except Panic (Reply (Except Error Effect))
  | .ok _ e => return ⟨.ok e.effect, e.machine.follow e.flow⟩
  | .error (.fault f) e => return e.machine.settle f
  | .error (.panic p) _ => throw p

/-- Executes the word `w`, which was fetched at the program counter. -/
def executeWord (w : Word) : Except Panic (Reply (Except Error Effect)) := do
  let i ← decode w
  conclude ((execute i).run { machine := m.fetched w })

/-- Fetches and executes one instruction. -/
def step : Except Panic (Reply (Except Error Effect)) :=
  match m.halted with
  | some _ => return ⟨.error .halted, m⟩
  | none => do
    match ← fetch m.memory m.registers.pc with
    | .error e => return m.halt (.fault (.memory e))
    | .ok w => m.executeWord w

/-! ### Setting up -/

/-- A bare machine at the start of the program in `image`, with the given random bytes. -/
def boot (name : String) (image : List Byte) (config : Config) (generator : Generator) :
    Machine where
  name := name
  opcode := 0
  image := image
  memory := image
  registers := ⟨.replicate Registers.count 0, 0, Memory.origin, []⟩
  timers := {}
  screen := .replicate Screen.height (.replicate Screen.width false)
  keypad := .released
  generator := generator
  config := config
  halted := none

/-- The memory in which a program starts. -/
def imageOf (rom : Rom) : Except Panic (Except Error (List Byte)) := do
  let cells ← initialCells
  let loaded ← loadCells cells rom.data
  return loaded.mapError .rom

/-- A bare machine for a program, or the reason why there is none. -/
def new (rom : Rom) (config : Config) (environment : Nat → Byte) :
    Except Panic (Except Error Machine) := do
  let image ← imageOf rom
  return image.map fun image => boot rom.name image config (config.generator environment)

/-- Back to the start of the program, on the same screen, which is cleared. -/
def restart : Machine :=
  { boot m.name m.image m.config m.generator with screen := clear m.screen }

/-- Replaces the program and starts it. A refused program changes nothing. -/
def load (rom : Rom) : Except Panic (Reply (Except Error Unit)) := do
  match ← imageOf rom with
  | .error e => return ⟨.error e, m⟩
  | .ok image => return ⟨.ok (), { m with name := rom.name, image := image }.restart⟩

/-- Answers one request. -/
def perform : Chip8.Machine.Command → Except Panic (Reply (Except Error Effect))
  | .step => m.step
  | .setKeypad keys => return ⟨.ok .none, { m with keypad := keys }⟩
  | .tickTimers => return ⟨.ok .none, { m with timers := m.timers.tick }⟩
  | .setGenerator g => return ⟨.ok .none, { m with generator := g }⟩
  | .reset => return ⟨.ok .none, m.restart⟩
  | .load rom => do
    let reply ← m.load rom
    return { reply with result := reply.result.map fun _ => .none }

/-- Answers requests one after the other. -/
def performAll (m : Machine) : List Chip8.Machine.Command →
    Except Panic (Reply (List (Except Error Effect)))
  | [] => return ⟨[], m⟩
  | command :: commands => do
    let reply ← m.perform command
    let rest ← performAll reply.machine commands
    return { rest with result := reply.result :: rest.result }

end Machine

end Bare

end Chip8
