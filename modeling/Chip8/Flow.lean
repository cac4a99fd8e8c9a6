import Chip8.Word

/-!
# The flow of control

Where an instruction leads, told from the address behind it.

* `Flow` : on to the next instruction, past it, or to a target.
* `Flow.skipIf` : past the next instruction exactly when a condition holds.
* `Flow.apply` : the program counter that follows.
-/

namespace Chip8

/-- Where an instruction leads once the program counter has moved past it. -/
inductive Flow where
  /-- To the instruction behind it. -/
  | next
  /-- Past the instruction behind it. -/
  | skip
  /-- To the given address. -/
  | jump (target : Nat)
  deriving DecidableEq, Repr

namespace Flow

/-- Skips when `c` holds. -/
def skipIf (c : Bool) : Flow := if c then skip else next

/-- The program counter after this flow, from a counter `pc` that already points behind the
instruction. -/
def apply (pc : Nat) : Flow → Nat
  | next => pc
  | skip => pc + Word.size
  | jump target => target

/-- The flow in words. -/
def text : Flow → String
  | next => "Next"
  | skip => "Skip"
  | jump target => "Jump(" ++ toString target ++ ")"

end Flow

end Chip8
