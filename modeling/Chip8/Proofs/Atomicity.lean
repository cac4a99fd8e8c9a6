import Chip8.Proofs.Step

/-!
# Faults change nothing

A step that meets a fault leaves one of three machines behind, and none of them holds a part of what
the faulting instruction would have written.

* `Machine.step_atomic` : **fault atomicity of a step.**  A fault of the instruction moves the
  counter past its word and stores the word; a fault of the fetch does not even do that; a machine
  that has halted before does nothing.
-/

namespace Chip8

namespace Machine

variable {m : Machine}

/-- The machine that is left behind by a fault which is passed over. -/
theorem step_of_ignored {w : Word} {f : Fault} (hm : m.halted = none)
    (hf : m.memory.fetch m.registers.pc = .ok w)
    (hx : (m.fetched w).execute (.ofWord w) = .error f) (hp : m.config.policy = .ignore) :
    m.step.result = .ok (.ignored f) ∧ m.step.machine = m.fetched w := by
  have hs : (m.fetched w).settle m.registers.pc f =
      ⟨.ok (.ignored f), m.fetched w, [.ignored w m.registers.pc f]⟩ := by
    simp only [settle_eq, show (m.fetched w).config.policy = .ignore from hp]
    rfl
  rw [step_of_faulted hm hf hx]
  simp only [afterFault, hs, and_self]

/-- The machine that is left behind by a fault which halts. -/
theorem step_of_halting {w : Word} {f : Fault} (hm : m.halted = none)
    (hf : m.memory.fetch m.registers.pc = .ok w)
    (hx : (m.fetched w).execute (.ofWord w) = .error f) (hp : m.config.policy = .halt) :
    m.step.result = .error (.fault f) ∧
      m.step.machine = { m.fetched w with halted := some f } := by
  have hs : (m.fetched w).settle m.registers.pc f = (m.fetched w).halt f := by
    simp only [settle_eq, show (m.fetched w).config.policy = .halt from hp]
  rw [step_of_faulted hm hf hx]
  simp only [afterFault, hs, halt, and_self]

variable (m) in
/-- **Fault atomicity of a step.**  If the work of the fetched instruction faults, only the counter
and the stored word have changed, and the policy decides whether the machine halts; if there is no
word to fetch, the machine halts under either policy and nothing else has changed. -/
theorem step_atomic :
    (∀ w f e, m.halted = none → m.memory.fetch m.registers.pc = .ok w →
      (Work.execute (.ofWord w)).run { machine := m.fetched w } = .error f e →
      (m.config.policy = .ignore →
        m.step.result = .ok (.ignored f) ∧
          m.step.machine =
            { m with opcode := w, registers := { m.registers with pc := m.registers.pc + 2 } }) ∧
      (m.config.policy = .halt →
        m.step.result = .error (.fault f) ∧
          m.step.machine =
            { m with
              opcode := w
              registers := { m.registers with pc := m.registers.pc + 2 }
              halted := some f })) ∧
    (∀ e, m.halted = none → m.memory.fetch m.registers.pc = .error e →
      m.step.result = .error (.fault (.memory e)) ∧
        m.step.machine = { m with halted := some (.memory e) }) ∧
    ∀ f, m.halted = some f → m.step.result = .error .halted ∧ m.step.machine = m := by
  refine ⟨fun w f e hm hf hw => ?_, fun e hm hf => ?_, fun f hm => ?_⟩
  · obtain ⟨hx, -⟩ := Work.eq_of_run_execute_error hw
    exact ⟨step_of_ignored hm hf hx, step_of_halting hm hf hx⟩
  · rw [step_of_unfetched hm hf]
    exact ⟨rfl, rfl⟩
  · rw [step_of_halted hm]
    exact ⟨rfl, rfl⟩

/-- A machine whose every word returns, from no call at all. -/
def returning (policy : FaultPolicy) : Machine :=
  boot "" ⟨.ofFn fun i => if i.val % 2 = 0 then 0x00 else 0xEE⟩ { policy } .zeros

theorem fetch_returning (policy : FaultPolicy) {p : Nat} (hlt : p < 0xFFF) :
    (returning policy).memory.fetch p = .ok (if p % 2 = 0 then 0x00EE else 0xEE00) := by
  have hlt' : p + 1 < Memory.size := Nat.succ_lt_succ hlt
  rw [Memory.fetch_eq, dif_pos hlt']
  simp only [returning, boot, Vector.getElem_ofFn]
  rcases Nat.mod_two_eq_zero_or_one p with h | h
  · have h' : (p + 1) % 2 = 1 := by omega
    simp only [h, h', ↓reduceIte, Nat.one_ne_zero]
    rfl
  · have h' : (p + 1) % 2 = 0 := by omega
    simp only [h, h', ↓reduceIte, Nat.one_ne_zero]
    rfl

/-- Both policies at an underflow, a counter past the last word, and a halted machine. -/
theorem step_atomic_returning :
    ((returning .ignore).step.result = .ok (.ignored (.stack .underflow)) ∧
      (returning .ignore).step.machine =
        { returning .ignore with
          opcode := 0x00EE
          registers := { Registers.start with pc := 0x202 } }) ∧
    ((returning .halt).step.result = .error (.fault (.stack .underflow)) ∧
      (returning .halt).step.machine =
        { returning .halt with
          opcode := 0x00EE
          registers := { Registers.start with pc := 0x202 }
          halted := some (.stack .underflow) }) ∧
    { returning .ignore with registers := { Registers.start with pc := 0xFFF } }.step.result =
      .error (.fault (.memory (.outOfBounds 0x1000))) ∧
    { returning .halt with halted := some (.stack .overflow) }.step.result = .error .halted := by
  have hw : ∀ policy, (Work.execute (.ofWord 0x00EE)).run
      { machine := (returning policy).fetched 0x00EE } =
        .error (.stack .underflow) { machine := (returning policy).fetched 0x00EE } :=
    fun _ => rfl
  have hf : ∀ policy, (returning policy).memory.fetch 0x200 = .ok 0x00EE :=
    fun policy => fetch_returning policy (by decide)
  refine ⟨?_, ?_, ?_, ?_⟩
  · exact ((step_atomic _).1 _ _ _ rfl (hf .ignore) (hw .ignore)).1 rfl
  · exact ((step_atomic _).1 _ _ _ rfl (hf .halt) (hw .halt)).2 rfl
  · exact ((step_atomic _).2.1 _ rfl (by rw [Memory.fetch_eq]; rfl)).1
  · exact ((step_atomic _).2.2 _ rfl).1

end Machine

end Chip8
