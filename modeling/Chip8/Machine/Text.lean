import Chip8.Machine.Basic
import Chip8.Memory.Dump

/-!
# The text of a machine

The state in lines: program, counter and index, timers, registers, stack, the fault that halted it
if one did, and the dump of its memory.

* `Machine.lines`, `Machine.text` : the lines, and all of them together.
-/

namespace Chip8

namespace Machine

/-- The texts with a blank in front of each. -/
def spaced (texts : List String) : String := String.join (texts.map (" " ++ ·))

variable (m : Machine)

/-- The line of the eight registers from number `first` on. -/
def registerLine (first : Nat) : String :=
  "V" ++ String.ofList (Hex.digits first) ++ "-V" ++ String.ofList (Hex.digits (first + 7)) ++
    ":" ++ spaced (((m.registers.v.toList.drop first).take 8).map Hex.byte)

/-- The line that says which fault halted the machine. -/
def haltedLine : List String :=
  (m.halted.map fun f => "Halted: " ++ (Error.fault f).message).toList

/-- The lines of a machine. -/
def lines : List String :=
  ["Rom: " ++ m.name,
    "PC: " ++ Hex.word m.registers.pc ++ " I: " ++ Hex.word m.registers.index.toNat ++
      " Opcode: " ++ Hex.word m.opcode.toNat,
    "Delay: " ++ Hex.byte m.timers.delay ++ " Sound: " ++ Hex.byte m.timers.sound,
    m.registerLine 0, m.registerLine 8,
    "Stack:" ++ spaced (m.registers.stack.toList.map Hex.word)] ++
  m.haltedLine ++ ["Memory:"] ++ m.memory.dump.map (·.text)

/-- The text of a machine. -/
def text : String := String.join (m.lines.map (· ++ "\n"))

end Machine

end Chip8
