import Chip8.Proofs.Tick

/-!
# What a step does not see

A step fetches, counts and halts without the timers, the keys, the random bytes and the screen; only
the instruction that it executes can have to do with them. Each of them is looked at by few
instructions, and under any other instruction a step goes the same way whatever it holds.

* `Device`, `Instruction.reads` : these parts of a machine, and which instructions look at them.
* `Machine.without` : a machine without what some devices hold.
* `Machine.execute_without` : **an instruction does not see a device that it does not look at.**
* `Machine.next?`, `Machine.Overlooks` : the instruction that the next step fetches, and that it
  looks at none of some devices.
* `Machine.starts` : the machines that the steps of a run start from.
* `Machine.step_congr`, `Machine.run_congr` : two machines that differ in such devices only take the
  same step, and the same run.
-/

namespace Chip8

/-- A part of a machine that few instructions look at. -/
inductive Device where
  /-- The delay timer. -/
  | delay
  /-- The sound timer. -/
  | sound
  /-- The keys. -/
  | keypad
  /-- The random bytes. -/
  | generator
  /-- The pixels. -/
  | screen
  deriving DecidableEq

/-- The instruction looks at the device: `FX07` at the delay timer, `EX9E`, `EXA1` and `FX0A` at the
keys, `CXNN` at the random bytes and `DXYN` at the pixels, and none at the sound timer. -/
def Instruction.reads : Instruction → Device → Bool
  | .readDelay _, .delay => true
  | .skip (.pressed _), .keypad | .skip (.released _), .keypad | .readKey _, .keypad => true
  | .random .., .generator => true
  | .draw .., .screen => true
  | _, _ => false

/-- The same run to another machine. -/
def Run.over (r : Run) (f : Machine → Machine) : Run := { r with machine := f r.machine }

namespace Machine

/-- What a request leaves behind, with another machine. -/
def Reply.over {α : Type} (r : Reply α) (f : Machine → Machine) : Reply α :=
  { r with machine := f r.machine }

/-! ### Hidden devices -/

/-- What is seen of `x` while it is hidden behind `a`, or while it is not. -/
def hide {α : Type} (hidden : Bool) (a x : α) : α := if hidden then a else x

@[simp] theorem hide_hide {α : Type} (hidden : Bool) (a x : α) :
    hide hidden a (hide hidden a x) = hide hidden a x := by
  cases hidden <;> rfl

theorem hide_false {α : Type} (a x : α) : hide false a x = x := rfl

/-- The machine with some devices as they are at a start. Two machines with the same one differ in
these devices only. -/
def without (hidden : Device → Bool) (m : Machine) : Machine :=
  { m with
    timers :=
      { delay := hide (hidden .delay) 0 m.timers.delay
        sound := hide (hidden .sound) 0 m.timers.sound }
    keypad := hide (hidden .keypad) .released m.keypad
    generator := hide (hidden .generator) .zeros m.generator
    screen := hide (hidden .screen) .blank m.screen }

variable {hidden : Device → Bool} {m n : Machine}

@[simp] theorem without_without (m : Machine) :
    (m.without hidden).without hidden = m.without hidden := by
  simp only [without, hide_hide]

/-- **An instruction does not see a device that it does not look at.** -/
theorem execute_without (m : Machine) {i : Instruction}
    (h : ∀ d, i.reads d = true → hidden d = false) :
    ((m.without hidden).execute i).map (·.over (without hidden)) =
      (m.execute i).map (·.over (without hidden)) := by
  cases i with
  | clearScreen | jump | jumpOffset | setByte | addByte | setIndex | addIndex | glyph
  | setDelay | setSound | unknown | combine | shift =>
    simp only [execute, Except.map, Execution.over, setRegister, withRegisters, without, hide_hide]
  -- the instructions that look at a device, which is not hidden
  | skip c =>
    have htest : c.test m.registers (m.without hidden).keypad = c.test m.registers m.keypad := by
      cases c with
      | pressed | released => simp only [without, h .keypad rfl, hide_false]
      | _ => rfl
    simp only [execute, Except.map, Execution.over, without_without]
    rw [← htest]
    rfl
  | random x nn =>
    simp only [execute, executeRandom, Except.map, Execution.over, setRegister, withRegisters,
      without, h .generator rfl, hide_false, hide_hide]
  | readDelay x =>
    simp only [execute, Except.map, Execution.over, setRegister, withRegisters, without,
      h .delay rfl, hide_false, hide_hide]
  | readKey x =>
    simp only [execute, without, h .keypad rfl, hide_false]
    cases m.keypad.firstPressed <;>
      simp only [Except.map, Execution.over, setRegister, withRegisters, without, h .keypad rfl,
        hide_false, hide_hide]
  | draw x y n =>
    simp only [execute, executeDraw, without, h .screen rfl, hide_false]
    cases m.memory.slice m.registers.index.toNat n <;>
      simp only [Except.map, Execution.over, without, h .screen rfl, hide_false, hide_hide]
  -- the instructions that can fault
  | ret =>
    simp only [execute, executeReturn, without]
    cases m.registers.stack.pop <;>
      simp only [Except.map, Execution.over, withRegisters, without, hide_hide]
  | call nnn =>
    simp only [execute, executeCall, without]
    cases m.registers.stack.push m.registers.pc <;>
      simp only [Except.map, Execution.over, withRegisters, without, hide_hide]
  | storeDigits x =>
    simp only [execute, storeAtIndex, without]
    cases m.memory.replace m.registers.index.toNat (m.registers.get x).decimal <;>
      simp only [Except.map, Execution.over, without, hide_hide]
  | store x =>
    simp only [execute, storeAtIndex, without]
    cases m.memory.replace m.registers.index.toNat (m.registers.upTo x) <;>
      simp only [Except.map, Execution.over, withRegisters, without, hide_hide]
  | load x =>
    simp only [execute, loadBlock, without]
    cases m.memory.slice m.registers.index.toNat (x + 1) <;>
      simp only [Except.map, Execution.over, withRegisters, without, hide_hide]

/-! ### Steps -/

/-- The instruction that the next step fetches; a halted machine fetches none. -/
def next? (m : Machine) : Option Instruction :=
  match m.halted, m.memory.fetch m.registers.pc with
  | none, .ok w => some (.ofWord w)
  | _, _ => none

theorem next?_of_fetch {w : Word} (hm : m.halted = none)
    (hf : m.memory.fetch m.registers.pc = .ok w) : m.next? = some (.ofWord w) := by
  simp only [next?, hm, hf]

theorem exists_of_next? {i : Instruction} (h : m.next? = some i) :
    ∃ w, m.halted = none ∧ m.memory.fetch m.registers.pc = .ok w ∧ i = .ofWord w := by
  unfold next? at h
  split at h
  · rename_i w hm hf
    exact ⟨w, hm, hf, (Option.some.inj h).symm⟩
  · cases h

/-- The next instruction is fetched without any device. -/
theorem next?_congr (h : m.without hidden = n.without hidden) : m.next? = n.next? :=
  (congrArg next? h : (m.without hidden).next? = (n.without hidden).next?)

/-- The instruction that the next step fetches looks at no hidden device. -/
def Overlooks (hidden : Device → Bool) (m : Machine) : Prop :=
  ∀ i, m.next? = some i → ∀ d, i.reads d = true → hidden d = false

theorem overlooks_congr (hmn : m.without hidden = n.without hidden) (h : m.Overlooks hidden) :
    n.Overlooks hidden :=
  fun i hi => h i ((next?_congr hmn).trans hi)

theorem halt_without (m : Machine) (f : Fault) :
    ((m.without hidden).halt f).over (without hidden) = (m.halt f).over (without hidden) := by
  simp only [halt, Reply.over, without, hide_hide]

theorem afterFault_without (m : Machine) (w : Word) (f : Fault) :
    ((m.without hidden).afterFault w f).over (without hidden) =
      (m.afterFault w f).over (without hidden) := by
  simp only [afterFault, settle_eq, fetched]
  cases hp : m.config.policy with
  | halt => simp only [without, hp, halt, Reply.over, hide_hide]
  | ignore => simp only [without, hp, Reply.over, hide_hide]

theorem afterExecution_without (m : Machine) (w : Word) {e e' : Execution}
    (h : e'.over (without hidden) = e.over (without hidden)) :
    ((m.without hidden).afterExecution w e').over (without hidden) =
      (m.afterExecution w e).over (without hidden) := by
  obtain ⟨k, flow, effect, log⟩ := e
  obtain ⟨k', flow', effect', log'⟩ := e'
  simp only [Execution.over, Execution.mk.injEq] at h
  obtain ⟨hk, rfl, rfl, rfl⟩ := h
  have hregisters : k'.registers = k.registers :=
    (congrArg registers hk : (k'.without hidden).registers = _)
  have hmachine (r : Registers) :
      (k'.withRegisters r).without hidden = (k.withRegisters r).without hidden :=
    congrArg (·.withRegisters r) hk
  simp only [afterExecution, Reply.over, hregisters, hmachine]
  rfl

/-- **A step does not see a device that its instruction does not look at.** -/
theorem step_without (h : m.Overlooks hidden) :
    (m.without hidden).step.over (without hidden) = m.step.over (without hidden) := by
  obtain ⟨k, hk⟩ : ∃ k, k = m.without hidden := ⟨_, rfl⟩
  have hhalted : k.halted = m.halted := hk ▸ rfl
  have hfetch : k.memory.fetch k.registers.pc = m.memory.fetch m.registers.pc := hk ▸ rfl
  rw [← hk]
  cases hm : m.halted with
  | some f =>
    rw [step_of_halted hm, step_of_halted (hhalted.trans hm), hk]
    simp only [Reply.over, without_without]
  | none =>
    have hm' := hhalted.trans hm
    cases hf : m.memory.fetch m.registers.pc with
    | error e =>
      rw [step_of_unfetched hm hf, step_of_unfetched hm' (hfetch.trans hf), hk, halt_without]
    | ok w =>
      have hf' := hfetch.trans hf
      -- the instruction faults on both machines, or on none
      have hsame := execute_without (m.fetched w) (h _ (next?_of_fetch hm hf))
      rw [show (m.fetched w).without hidden = k.fetched w from hk ▸ rfl] at hsame
      cases hx : (m.fetched w).execute (.ofWord w) with
      | error f =>
        cases hx' : (k.fetched w).execute (.ofWord w) with
        | ok e' => rw [hx, hx'] at hsame; cases hsame
        | error f' =>
          rw [hx, hx'] at hsame
          cases hsame
          rw [step_of_faulted hm hf hx, step_of_faulted hm' hf' hx', hk, afterFault_without]
      | ok e =>
        cases hx' : (k.fetched w).execute (.ofWord w) with
        | error f' => rw [hx, hx'] at hsame; cases hsame
        | ok e' =>
          rw [hx, hx'] at hsame
          rw [step_of_executed hm hf hx, step_of_executed hm' hf' hx', hk]
          exact afterExecution_without m w (Except.ok.inj hsame)

/-- Two machines that differ in devices that the instruction does not look at take the same step. -/
theorem step_congr (hmn : m.without hidden = n.without hidden) (h : m.Overlooks hidden) :
    m.step.over (without hidden) = n.step.over (without hidden) := by
  rw [← step_without h, hmn, step_without (overlooks_congr hmn h)]

/-! ### Runs -/

/-- The machines that the first `n` steps start from, up to the first step that fails. -/
def starts : Nat → Machine → List Machine
  | 0, _ => []
  | n + 1, m =>
    m :: match m.step.result with
      | .error _ => []
      | .ok _ => starts n m.step.machine

theorem starts_of_error {e : Error} (h : m.step.result = .error e) (n : Nat) :
    m.starts (n + 1) = [m] := by
  simp only [starts, h]

theorem starts_of_ok {effect : Effect} (h : m.step.result = .ok effect) (n : Nat) :
    m.starts (n + 1) = m :: m.step.machine.starts n := by
  simp only [starts, h]

/-- The steps of a run answer with its effects and, if it fails, with its error. -/
theorem results_starts (m : Machine) (n : Nat) :
    (m.starts n).map (·.step.result) =
      (m.run n).effects.map .ok ++ (m.run n).error.toList.map .error := by
  induction n generalizing m with
  | zero => rfl
  | succ n ih =>
    cases h : m.step.result with
    | error e => rw [starts_of_error h, run_of_error h, List.map_singleton, h]; rfl
    | ok effect => rw [starts_of_ok h, run_of_ok h, List.map_cons, h, ih]; rfl

/-- **Two machines that differ in devices that no instruction looks at take the same run**, as far
as the pixels are not among them. -/
theorem run_congr (hscreen : hidden .screen = false) (hmn : m.without hidden = n.without hidden)
    (k : Nat) (h : ∀ s ∈ m.starts k, s.Overlooks hidden) :
    (m.starts k).map (without hidden) = (n.starts k).map (without hidden) ∧
      (m.run k).over (without hidden) = (n.run k).over (without hidden) := by
  induction k generalizing m n with
  | zero => exact ⟨rfl, by simp only [run, Run.over, hmn]⟩
  | succ k ih =>
    have hstep := step_congr hmn (h m List.mem_cons_self)
    simp only [Reply.over, Reply.mk.injEq] at hstep
    obtain ⟨hresult, hmachine, hlog⟩ := hstep
    cases hs : m.step.result with
    | error e =>
      have hs' := hresult ▸ hs
      rw [starts_of_error hs, starts_of_error hs', run_of_error hs, run_of_error hs']
      exact ⟨by simp only [List.map, hmn], by simp only [Run.over, hmachine, hlog]⟩
    | ok effect =>
      have hs' := hresult ▸ hs
      obtain ⟨hstarts, hrun⟩ := ih hmachine fun s hmem => h s (by
        rw [starts_of_ok hs]
        exact List.mem_cons_of_mem _ hmem)
      simp only [Run.over, Run.mk.injEq] at hrun
      obtain ⟨heffects, hsignals, herror, hmachines, hlogs⟩ := hrun
      -- the display is shown the pixels, which are the same on both machines
      have hshown := congrArg screen hmachine
      simp only [without, hscreen, hide_false] at hshown
      rw [starts_of_ok hs, starts_of_ok hs', run_of_ok hs, run_of_ok hs']
      refine ⟨?_, ?_⟩
      · simp only [List.map, hmn, hstarts]
      · simp only [Run.over, heffects, hsignals, herror, hmachines, hlogs, hlog, hshown]

end Machine

end Chip8
