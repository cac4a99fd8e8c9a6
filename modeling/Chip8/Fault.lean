import Chip8.Hex

/-!
# Faults and errors

What can go wrong, by cause, and how it is told.

* `RomError`, `MemoryError`, `StackError` : the causes inside the parts of the machine.
* `Fault` : what an instruction or a fetch can run into; the fault policy decides about it.
* `Error` : what a machine answers instead of working on.
* `Error.reason`, `Error.message` : the text of the cause, and the sentence around it.
* `Error.Recoverable` : the errors that may be ignored; `Error.recoverable_fault` : all faults are.
-/

namespace Chip8

/-- Why a program cannot be loaded. -/
inductive RomError where
  /-- The program has no bytes. -/
  | empty
  /-- The program has `size` bytes, where only `capacity` fit. -/
  | tooLarge (size capacity : Nat)
  deriving DecidableEq, Repr

/-- Why memory cannot be accessed. -/
inductive MemoryError where
  /-- The first address of the access that memory does not have. -/
  | outOfBounds (address : Nat)
  deriving DecidableEq, Repr

/-- Why the call stack cannot be changed. -/
inductive StackError where
  /-- A call while the stack is full. -/
  | overflow
  /-- A return while the stack is empty. -/
  | underflow
  deriving DecidableEq, Repr

/-- What a fetch or an instruction can run into. -/
inductive Fault where
  /-- An access outside of memory. -/
  | memory (cause : MemoryError)
  /-- A call or a return that the stack does not allow. -/
  | stack (cause : StackError)
  deriving DecidableEq, Repr

/-- What a machine answers instead of working on. -/
inductive Error where
  /-- The program was refused. -/
  | rom (cause : RomError)
  /-- An instruction or a fetch faulted. -/
  | fault (cause : Fault)
  /-- The word is no instruction. -/
  | unknownWord (word : Word)
  /-- An earlier fault halted the machine. -/
  | halted
  deriving DecidableEq, Repr

/-! ### Texts -/

/-- The text of a refused program. -/
def RomError.message : RomError → String
  | .empty => "The rom does not contain any data."
  | .tooLarge size capacity =>
    "The rom is " ++ toString size ++ " bytes long, but at most " ++ toString capacity ++
      " bytes fit into memory."

/-- The text of a refused access. -/
def MemoryError.message : MemoryError → String
  | .outOfBounds address => "Memory address " ++ Hex.word address ++ " is out of bounds."

/-- The text of a refused call or return. -/
def StackError.message : StackError → String
  | .overflow => "Stack is full!"
  | .underflow => "Stack is empty!"

/-- The text about a word that is no instruction, without its full stop. -/
def Word.unknownText (w : Word) : String := "An unsupported opcode was used " ++ Hex.word w.toNat

namespace Error

/-- The text of the cause; an error without one has none. -/
def reason : Error → String
  | rom cause => cause.message
  | fault (.memory cause) => cause.message
  | fault (.stack cause) => cause.message
  | unknownWord w => w.unknownText ++ "."
  | halted => ""

/-- The sentence that reports the error. -/
def message : Error → String
  | e@(rom _) => "Invalid rom '" ++ e.reason ++ "'."
  | e@(fault (.memory _)) => "Invalid memory access '" ++ e.reason ++ "'."
  | e@(fault (.stack _)) => "Invalid stack state '" ++ e.reason ++ "'."
  | e@(unknownWord _) => "Invalid opcode state '" ++ e.reason ++ "'."
  | halted => "The chipset was halted by an earlier fault."

/-- An error that a machine may ignore and work on. -/
def Recoverable : Error → Prop
  | fault _ | unknownWord _ => True
  | rom _ | halted => False

instance : DecidablePred Recoverable
  | fault _ | unknownWord _ => .isTrue trivial
  | rom _ | halted => .isFalse id

/-- What an instruction or a fetch runs into can always be ignored, as far as the error goes. -/
theorem recoverable_fault (f : Fault) : (fault f).Recoverable := trivial

end Error

end Chip8
