import Chip8.Fault
import Chip8.Instruction.Text

/-!
# The log

What happens is logged as entries in order. An entry is data; its level and its text are functions
of it.

* `Log.Entry` : one constructor per kind of entry.
* `Log.Entry.level`, `Log.Entry.text` : how it is written.
-/

namespace Chip8

namespace Log

/-- How much an entry matters. -/
inductive Level where
  /-- Every instruction. -/
  | debug
  /-- Rare and harmless. -/
  | info
  /-- Wrong, and passed over. -/
  | warn
  /-- Wrong, and the end of the work. -/
  | error
  deriving DecidableEq, Repr

/-- Something that happened. -/
inductive Entry where
  /-- A program of `size` bytes was accepted. -/
  | loaded (name : String) (size : Nat)
  /-- A machine was put back to the start of its program. -/
  | reset (name : String)
  /-- The word at address `pc` was fetched. -/
  | fetched (pc : Nat) (word : Word) (instruction : Instruction)
  /-- A call returned to `target`. -/
  | returned (target : Nat)
  /-- A call went to `target`, the innermost of `depth` calls. -/
  | called (target depth : Nat)
  /-- The word is no instruction. -/
  | unknownWord (word : Word)
  /-- The instruction at `pc` faulted and was passed over. -/
  | ignored (word : Word) (pc : Nat) (fault : Fault)
  /-- A fault halted the machine. -/
  | halting (pc : Nat) (word : Word) (fault : Fault)
  /-- A session met an error. -/
  | stopped (error : Error)
  /-- The callback of a ticker failed. -/
  | tickerFailed
  deriving DecidableEq, Repr

namespace Entry

/-- The level of an entry. -/
def level : Entry → Level
  | fetched .. | returned _ | called .. => .debug
  | loaded .. | reset _ => .info
  | unknownWord _ | ignored .. => .warn
  | halting .. | stopped _ | tickerFailed => .error

/-- The text of an entry. -/
def text : Entry → String
  | loaded name size => "loaded rom '" ++ name ++ "' with " ++ toString size ++ " bytes"
  | reset name => "resetting chipset with rom '" ++ name ++ "'"
  | fetched pc word instruction =>
    Hex.word pc ++ " " ++ Hex.word word.toNat ++ " " ++ instruction.text
  | returned target => "return to " ++ Hex.word target
  | called target depth => "call " ++ Hex.word target ++ " depth " ++ toString depth
  | unknownWord word => word.unknownText
  | ignored word pc fault =>
    "ignoring opcode " ++ Hex.word word.toNat ++ " at " ++ Hex.word pc ++ ": " ++
      (Error.fault fault).message
  | halting pc word fault =>
    "halting at " ++ Hex.word pc ++ " after opcode " ++ Hex.word word.toNat ++ ": " ++
      (Error.fault fault).message
  | stopped error => "The chipset stopped: " ++ error.message
  | tickerFailed => "The worker thread panicked."

end Entry

/-- The name of a level. -/
def Level.text : Level → String
  | debug => "DEBUG"
  | info => "INFO"
  | warn => "WARN"
  | error => "ERROR"

/-- The line of an entry. -/
def Entry.line (e : Entry) : String := e.level.text ++ " " ++ e.text

end Log

/-- What happened, in order. -/
abbrev Log := List Log.Entry

end Chip8
