import Chip8.Keypad
import Chip8.Log
import Chip8.Machine.Config
import Chip8.Memory.Basic
import Chip8.Registers
import Chip8.Rom
import Chip8.Screen.Basic

/-!
# Machines

The whole state of a machine, and the ways to set it up.

* `Machine` : the state.
* `Machine.new` : a machine for a program, or the reason why there is none.
* `Machine.reset` : back to the start of the program.
* `Machine.load` : another program; a refused one changes nothing.
-/

namespace Chip8

/-- The state of a machine. -/
structure Machine where
  /-- The name of its program. -/
  name : String
  /-- The word that was fetched last. -/
  opcode : Word
  /-- The memory as it was after loading. -/
  image : Memory
  memory : Memory
  registers : Registers
  timers : Timers
  screen : Screen
  /-- The keys as the machine sees them. -/
  keypad : Keypad
  /-- The random bytes. -/
  generator : Generator
  /-- The choices made for it. -/
  config : Config
  /-- The fault that halted it. -/
  halted : Option Fault

namespace Machine

/-- A machine at the start of the program in `image`, with the given random bytes. -/
def boot (name : String) (image : Memory) (config : Config) (generator : Generator) : Machine where
  name := name
  opcode := 0
  image := image
  memory := image
  registers := .start
  timers := {}
  screen := .blank
  keypad := .released
  generator := generator
  config := config
  halted := none

/-- The memory in which a program starts. -/
def imageOf (rom : Rom) : Except Error Memory :=
  (Memory.initial.load rom.data).mapError .rom

/-- The entry for an accepted program. -/
def loadedEntry (rom : Rom) : Log.Entry := .loaded rom.name rom.size

/-- A machine for a program, with what was logged; a refused program is not logged. Without a seed
the random bytes are those of `environment`, which can be any; zeros stand in where they do not
matter. -/
def new (rom : Rom) (config : Config) (environment : Nat → Byte := fun _ => 0) :
    Except Error (Machine × Log) :=
  (imageOf rom).map fun image =>
    (boot rom.name image config (config.generator environment), [loadedEntry rom])

variable (m : Machine)

/-- Back to the start of the program. The random bytes go on where they are. -/
def restart : Machine := boot m.name m.image m.config m.generator

/-- Back to the start of the program, with what is logged. -/
def reset : Machine × Log := (m.restart, [.reset m.name])

/-- What a request to a machine leaves behind. -/
structure Reply (α : Type) where
  /-- The answer. -/
  result : α
  /-- The machine afterwards. -/
  machine : Machine
  /-- What was logged. -/
  log : Log := []

/-- Replaces the program and starts it. A refused program changes nothing. -/
def load (rom : Rom) : Reply (Except Error Unit) :=
  match imageOf rom with
  | .error e => ⟨.error e, m, []⟩
  | .ok image =>
    let (machine, log) := { m with name := rom.name, image := image }.reset
    ⟨.ok (), machine, loadedEntry rom :: log⟩

/-- Hands over the keys. -/
def setKeypad (keys : Keypad) : Machine := { m with keypad := keys }

/-- Hands over another source of random bytes. -/
def setGenerator (g : Generator) : Machine := { m with generator := g }

/-- Decrements the timers. -/
def tickTimers : Machine := { m with timers := m.timers.tick }

end Machine

end Chip8
