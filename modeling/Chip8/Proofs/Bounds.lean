import Chip8.Machine.Run
import Chip8.Proofs.Faults

/-!
# Where a machine can get to

A program can jump anywhere and can keep anything in its registers, but the numbers of a machine
stay within bounds that are the same for all programs.

* `Machine.bounds_of_execute` : where an instruction leads, and what it leaves on the stack.
* `Machine.highest`, `Machine.Bounded` : the bounds of the counter, of the return addresses and of
  the fault that halted the machine.
* `Machine.Bounded.step`, `Machine.Bounded.perform`, `Machine.Bounded.performAll` : one step, one
  request and any number of them.
-/

namespace Chip8

namespace Machine

/-- The highest address that a program counter can have: that of a `BNNN` with the highest address
and the highest offset. -/
def highest : Nat := 0x10FE

/-- The bounds of what an address on the stack can be. -/
def IsReturnAddress (a : Nat) : Prop := 0x002 ≤ a ∧ a ≤ 0x1000

/-- The faults that a machine can have halted on. -/
def IsHalt : Fault → Prop
  | .stack _ => True
  | .memory (.outOfBounds a) => Memory.size ≤ a ∧ a ≤ highest

/-- The bounds of a machine. -/
structure Bounded (m : Machine) : Prop where
  pc : m.registers.pc ≤ highest
  stack : ∀ a ∈ m.registers.stack.toList, IsReturnAddress a
  halted : ∀ f, m.halted = some f → IsHalt f
  /-- Only a fetch halts a machine that passes over faults. -/
  ignoring : m.config.policy = .ignore → ∀ f, m.halted = some f →
    0xFFE < m.registers.pc ∧ f = .memory (.outOfBounds (max m.registers.pc Memory.size))

variable {m : Machine}

/-! ### Instructions -/

/-- Where an instruction leads, and what it leaves on the stack, when the counter and the stack are
as they are after a fetch. -/
theorem bounds_of_execute {i : Instruction} {e : Execution} (h : m.execute i = .ok e)
    (hpc : IsReturnAddress m.registers.pc)
    (hstack : ∀ a ∈ m.registers.stack.toList, IsReturnAddress a) :
    e.flow.apply m.registers.pc ≤ highest ∧
      ∀ a ∈ e.machine.registers.stack.toList, IsReturnAddress a := by
  have hnext : m.registers.pc ≤ highest := Nat.le_trans hpc.2 (by decide)
  cases executed_of_execute h with
  | @ret target rest hp =>
    have htop := CallStack.toList_pop hp
    have htarget : target ∈ m.registers.stack.toList := by
      rw [htop]
      exact List.mem_append_right _ List.mem_cons_self
    refine ⟨Nat.le_trans (hstack target htarget).2 (by decide), fun a ha => hstack a ?_⟩
    rw [htop]
    exact List.mem_append_left _ ha
  | @call nnn stack hp =>
    refine ⟨Nat.le_trans (Nat.le_of_lt nnn.isLt) (by decide), fun a ha => ?_⟩
    change a ∈ stack.toList at ha
    rw [CallStack.toList_push hp] at ha
    rcases List.mem_append.1 ha with ha | ha
    · exact hstack a ha
    · rw [List.mem_singleton.1 ha]
      exact hpc
  | @jump nnn => exact ⟨Nat.le_trans (Nat.le_of_lt nnn.isLt) (by decide), hstack⟩
  | @jumpOffset nnn =>
    have hoffset := (m.registers.get Registers.offsetRegister).isLt
    have hnnn := nnn.isLt
    refine ⟨?_, hstack⟩
    simp only [Flow.apply, highest]
    omega
  | @skip c =>
    refine ⟨?_, hstack⟩
    have hle := hpc.2
    unfold Flow.skipIf
    split
    · simp only [Flow.apply, Word.size, highest]
      omega
    · exact hnext
  | combine => exact ⟨hnext, by simpa using hstack⟩
  | shift => exact ⟨hnext, by simpa using hstack⟩
  | load =>
    simp only [Registers.passBlock, Registers.setIndex, Registers.stack_fill]
    exact ⟨hnext, hstack⟩
  | _ => exact ⟨hnext, hstack⟩

/-! ### Steps -/

/-- After a fetch the counter is behind a word in memory. -/
theorem isReturnAddress_of_fetch {w : Word} (hf : m.memory.fetch m.registers.pc = .ok w) :
    IsReturnAddress (m.fetched w).registers.pc := by
  have hpc : ¬ 0xFFE < m.registers.pc := by
    intro hlt
    rw [Memory.fetch_eq_error_iff.2 ⟨hlt, rfl⟩] at hf
    cases hf
  change 0x002 ≤ m.registers.pc + Word.size ∧ m.registers.pc + Word.size ≤ 0x1000
  simp only [Word.size]
  omega

namespace Bounded

theorem of_unhalted (hpc : m.registers.pc ≤ highest)
    (hstack : ∀ a ∈ m.registers.stack.toList, IsReturnAddress a) (hm : m.halted = none) :
    m.Bounded :=
  ⟨hpc, hstack, fun f hf => by simp [hm] at hf, fun _ f hf => by simp [hm] at hf⟩

theorem step (h : m.Bounded) : m.step.machine.Bounded := by
  generalize hr : m.step = reply
  cases hr ▸ m.stepCase with
  | halted => exact h
  | @unfetched e hm hf =>
    obtain ⟨hlt, rfl⟩ := Memory.fetch_eq_error_iff.1 hf
    refine ⟨h.pc, h.stack, fun f hhalt => ?_, fun _ f hhalt => ?_⟩
    · cases hhalt
      exact ⟨Nat.le_max_right .., Nat.max_le.2 ⟨h.pc, by decide⟩⟩
    · cases hhalt
      exact ⟨hlt, rfl⟩
  | @faulted w f hm hf hx =>
    have hpc := (isReturnAddress_of_fetch hf).2
    have hle : (m.fetched w).registers.pc ≤ highest := Nat.le_trans hpc (by decide)
    simp only [afterFault, settle_eq]
    split
    · -- the policy that halts
      rename_i hp
      refine ⟨hle, h.stack, fun g hhalt => ?_, fun hignore => ?_⟩
      · cases hhalt
        rcases fault_mem (execute_eq_error_iff.1 hx) with rfl | rfl | rfl
        · trivial
        · trivial
        · exact ⟨Nat.le_refl _, by decide⟩
      · rw [show (m.fetched w).config.policy = .ignore from hignore] at hp
        cases hp
    · exact of_unhalted hle h.stack hm
  | @executed w e hm hf hx =>
    have hbounds := bounds_of_execute hx (isReturnAddress_of_fetch hf) h.stack
    refine of_unhalted ?_ hbounds.2 ((kept_of_execute hx).halted.trans hm)
    simp only [afterExecution, registers_withRegisters, Registers.follow, pc_of_execute hx]
    exact hbounds.1

/-- A machine at the start of its program. -/
theorem of_start (hr : m.registers = .start) (hm : m.halted = none) : m.Bounded := by
  refine of_unhalted ?_ ?_ hm
  · rw [hr]
    decide
  · rw [hr]
    intro a ha
    cases ha

theorem perform (h : m.Bounded) (command : Command) : (m.perform command).machine.Bounded := by
  cases command with
  | step => exact h.step
  | setKeypad | tickTimers | setGenerator => exact ⟨h.pc, h.stack, h.halted, h.ignoring⟩
  | reset => exact of_start rfl rfl
  | load rom =>
    simp only [Machine.perform, load]
    cases imageOf rom with
    | error e => exact h
    | ok image => exact of_start rfl rfl

theorem performAll (h : m.Bounded) (commands : List Command) :
    (m.performAll commands).machine.Bounded := by
  induction commands generalizing m with
  | nil => exact h
  | cons command commands ih => exact ih (h.perform command)

end Bounded

end Machine

end Chip8
