import Chip8.Random.Generator
import Chip8.Timers

/-!
# Configuration

What is chosen for a machine before it runs.

* `FaultPolicy` : what a faulting instruction does to the machine.
* `Config` : the choices, with their defaults.
* `Config.generator` : the random bytes that the configuration asks for.
-/

namespace Chip8

/-- What happens to a machine whose instruction faults. -/
inductive FaultPolicy where
  /-- It halts until it is reset. -/
  | halt
  /-- It passes over the instruction. -/
  | ignore
  deriving DecidableEq, Repr

namespace Config

/-- The instructions that a machine is meant to execute in a second. -/
def hertz : Nat := 600

/-- The instructions between two timer ticks at that speed. -/
def defaultInstructionsPerTick : Nat := hertz / Timers.rate

end Config

/-- The choices for a machine. -/
structure Config where
  /-- The instructions between two timer ticks. -/
  instructionsPerTick : Nat := Config.defaultInstructionsPerTick
  /-- What a faulting instruction does. -/
  policy : FaultPolicy := .halt
  /-- The seed for the random bytes. -/
  seed : Option (BitVec 64) := none
  deriving DecidableEq, Repr

/-- The random bytes for a machine: those of its seed, or without one the bytes that the environment
will provide. -/
def Config.generator (c : Config) (environment : Nat → Byte) : Generator :=
  (c.seed.map Generator.ofSeed).getD (.ofEnvironment environment)

end Chip8
