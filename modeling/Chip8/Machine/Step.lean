import Chip8.Instruction.Decode
import Chip8.Machine.Work

/-!
# Steps

A step fetches the word at the program counter, moves the counter behind it and executes the
instruction.

* A fault of the fetch halts the machine under either policy and changes nothing else.
* A fault of the instruction halts the machine or is passed over, as the policy says. The machine
  goes on from where the instruction's work ended.
* A halted machine does nothing.

The definitions are `Machine.fetched`, the machine between fetch and execution, `Machine.settle`,
what becomes of a fault, and `Machine.step`. `Machine.settle_eq` says that the policy alone decides
about a fault.
-/

namespace Chip8

namespace Machine

variable (m : Machine)

/-- Halts on a fault. -/
def halt (f : Fault) : Reply (Except Error Effect) where
  result := .error (.fault f)
  machine := { m with halted := some f }
  log := [.halting m.registers.pc m.opcode f]

/-- Halts on the fault of the instruction that was fetched at `pc`, or passes over it if that is the
policy and the error is one that can be passed over. -/
def settle (pc : Nat) (f : Fault) : Reply (Except Error Effect) :=
  match m.config.policy with
  | .ignore =>
    if (Error.fault f).Recoverable then ⟨.ok (.ignored f), m, [.ignored m.opcode pc f]⟩
    else m.halt f
  | .halt => m.halt f

/-- A fault can always be passed over, so that the policy alone decides. -/
theorem settle_eq (pc : Nat) (f : Fault) :
    m.settle pc f =
      match m.config.policy with
      | .halt => m.halt f
      | .ignore => ⟨.ok (.ignored f), m, [.ignored m.opcode pc f]⟩ := by
  rw [settle, if_pos (Error.recoverable_fault f)]
  cases m.config.policy <;> rfl

/-- The machine after the word `w` was fetched. -/
def fetched (w : Word) : Machine := { m with opcode := w, registers := m.registers.advance }

/-- Executes the word `w`, which was fetched at the program counter. -/
def executeWord (w : Word) : Reply (Except Error Effect) :=
  let i := Instruction.ofWord w
  let pc := m.registers.pc
  match (Work.execute i).run { machine := m.fetched w } with
  | .error f e =>
    let reply := e.machine.settle pc f
    { reply with log := .fetched pc w i :: (e.log ++ reply.log) }
  | .ok _ e =>
    { result := .ok e.effect
      machine := e.machine.withRegisters (e.machine.registers.follow e.flow)
      log := .fetched pc w i :: e.log }

/-- Fetches and executes one instruction. -/
def step : Reply (Except Error Effect) :=
  match m.halted with
  | some _ => ⟨.error .halted, m, []⟩
  | none =>
    match m.memory.fetch m.registers.pc with
    | .error e => m.halt (.memory e)
    | .ok w => m.executeWord w

end Machine

end Chip8
