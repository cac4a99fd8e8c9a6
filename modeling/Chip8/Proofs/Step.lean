import Chip8.Machine.Step

/-!
# How a step can go

The work of an instruction is followed through its order of reads, checks and writes, once for each
instruction; every fact about steps is then read off the effect as a whole.

* `Work.run_execute` : **the work has the whole effect of the instruction, or it faults before it
  has changed anything.**
* `Machine.Executed`, `Machine.executed_of_execute` : what each instruction leaves behind.
* `Machine.Kept`, `Machine.kept_of_execute` : what no instruction writes.
* `Machine.pc_of_execute` : no instruction writes the counter by itself.
* `Machine.Unwritten`, `Machine.unwritten_of_step` : what no step writes.
* `Machine.effect_of_execute` : the effect of an instruction depends on the instruction alone.
* `Machine.StepCase`, `Machine.stepCase` : the four ways a step can go.
* `Machine.step_of_fetched`, `Machine.executeWord_of_executed` : what the fetched word does.
* `Machine.step_of_ok`, `Machine.machine_of_step_error` : what a step leaves behind, by its answer.
* `Machine.boot_of_new`, `Machine.fetch_of_new` : how a new machine starts.
-/

namespace Chip8

/-- What others have to know of an instruction that does not fault. -/
def Instruction.effect : Instruction → Effect
  | .clearScreen => .cleared
  | .draw .. => .drawn
  | .unknown w => .unsupported w
  | _ => .none

/-- The same end of an instruction on another machine. -/
def Execution.over (e : Execution) (f : Machine → Machine) : Execution :=
  { e with machine := f e.machine }

namespace Work

/-! ### Running a piece of work -/

variable (e : Execution)

@[simp] theorem run_look {α : Type} (f : Machine → α) : (look f).run e = .ok (f e.machine) e := rfl

@[simp] theorem run_changeRegisters (f : Registers → Registers) :
    (changeRegisters f).run e =
      .ok () { e with machine := e.machine.withRegisters (f e.machine.registers) } := rfl

@[simp] theorem run_attempt_ok {α ε : Type} (f : ε → Fault) (a : α) :
    (attempt ((Except.ok a).mapError f)).run e = .ok a e := rfl

theorem run_register_bind {α : Type} (x : Nibble) (k : Byte → Work α) :
    (register x >>= k).run e = (k (e.machine.registers.get x)).run e := rfl

theorem run_put (x : Nibble) (c : Computed) :
    (put x c).run e =
      .ok () { e with machine := e.machine.withRegisters (e.machine.registers.put x c) } := by
  obtain ⟨value, _ | flag⟩ := c <;> rfl

/-! ### The order of an instruction -/

/-- The end of a piece of work on `m` that has its whole effect or none. -/
def whole (m : Machine) : Except Fault Execution → EStateM.Result Fault Execution Unit
  | .ok e => .ok () e
  | .error f => .error f { machine := m }

/-- **An instruction has its whole effect or none.**  Whatever an instruction writes, it writes
after the last check that can fail. -/
theorem run_execute (m : Machine) (i : Instruction) :
    (execute i).run { machine := m } = whole m (m.execute i) := by
  cases i with
  | clearScreen | jump | jumpOffset | skip | setByte | addByte | addIndex | glyph | random
  | readDelay | setDelay | setSound | unknown => rfl
  | setIndex nnn => simp [execute, setIndex, Machine.execute, Registers.setIndex, whole]
  | combine op x y =>
    rw [execute, run_register_bind, run_register_bind]
    exact run_put ..
  | shift d x =>
    rw [execute, run_register_bind]
    exact run_put ..
  | readKey x =>
    simp only [execute, Machine.execute, EStateM.run_bind, run_look]
    cases m.keypad.firstPressed <;> rfl
  -- the instructions that can fault: the check decides between the two ends
  | ret =>
    simp only [execute, popStack, Machine.execute, Machine.executeReturn, EStateM.run_bind,
      run_look]
    cases m.registers.stack.pop <;> rfl
  | call nnn =>
    simp only [execute, pushStack, Machine.execute, Machine.executeCall, EStateM.run_bind,
      run_look]
    cases m.registers.stack.push m.registers.pc <;> rfl
  | draw x y n =>
    simp only [execute, slice, index, Machine.execute, Machine.executeDraw, EStateM.run_bind,
      run_look]
    cases m.memory.slice m.registers.index.toNat n <;> rfl
  | storeDigits x =>
    simp only [execute, register, index, replace, Machine.execute, Machine.storeAtIndex,
      EStateM.run_bind, run_look]
    cases m.memory.replace m.registers.index.toNat (m.registers.get x).decimal <;> rfl
  | store x =>
    simp only [execute, index, replace, Machine.execute, Machine.storeAtIndex, EStateM.run_bind,
      run_look]
    cases m.memory.replace m.registers.index.toNat (m.registers.upTo x) <;> rfl
  | load x =>
    simp only [execute, slice, index, setIndex, Machine.execute, Machine.loadBlock,
      EStateM.run_bind, run_look]
    cases m.memory.slice m.registers.index.toNat (x + 1) with
    | error e => rfl
    | ok bs =>
      -- the index is read before the registers are filled, which leaves it as it is
      simp only [Except.map, run_attempt_ok, run_changeRegisters, whole,
        Machine.registers_withRegisters, Machine.withRegisters_withRegisters,
        Registers.passBlock, Registers.index_fill]

/-- A fault leaves the machine, and everything else, as the work found it. -/
theorem eq_of_run_execute_error {m : Machine} {i : Instruction} {f : Fault} {e : Execution}
    (h : (execute i).run { machine := m } = .error f e) :
    m.execute i = .error f ∧ e = { machine := m } := by
  rw [run_execute] at h
  cases hi : m.execute i with
  | error g =>
    rw [hi] at h
    cases h
    exact ⟨rfl, rfl⟩
  | ok e' => rw [hi] at h; cases h

end Work

namespace Machine

variable (m : Machine)

/-! ### What every instruction has in common -/

/-- The instructions that do not fault, each with what it leaves behind. -/
inductive Executed : Instruction → Execution → Prop where
  | clearScreen : Executed .clearScreen
      { machine := { m with screen := .blank }, effect := .cleared }
  | ret {target rest} (hp : m.registers.stack.pop = .ok (target, rest)) : Executed .ret
      { machine := m.withRegisters { m.registers with stack := rest }
        flow := .jump target, log := [.returned target] }
  | jump {nnn} : Executed (.jump nnn) { machine := m, flow := .jump nnn.toNat }
  | call {nnn stack} (hp : m.registers.stack.push m.registers.pc = .ok stack) :
      Executed (.call nnn)
        { machine := m.withRegisters { m.registers with stack }
          flow := .jump nnn.toNat, log := [.called nnn.toNat stack.depth] }
  | jumpOffset {nnn} : Executed (.jumpOffset nnn)
      { machine := m
        flow := .jump (nnn.toNat + (m.registers.get Registers.offsetRegister).toNat) }
  | skip {c} : Executed (.skip c)
      { machine := m, flow := .skipIf (c.test m.registers m.keypad) }
  | setByte {x nn} : Executed (.setByte x nn) { machine := m.setRegister x nn }
  | addByte {x nn} : Executed (.addByte x nn)
      { machine := m.setRegister x (m.registers.get x + nn) }
  | combine {op x y} : Executed (.combine op x y)
      { machine := m.withRegisters
          (m.registers.put x (op.apply (m.registers.get x) (m.registers.get y))) }
  | shift {d x} : Executed (.shift d x)
      { machine := m.withRegisters (m.registers.put x (d.apply (m.registers.get x))) }
  | setIndex {nnn} : Executed (.setIndex nnn)
      { machine := m.withRegisters { m.registers with index := nnn } }
  | addIndex {x} : Executed (.addIndex x)
      { machine := m.withRegisters
          (m.registers.setIndex (m.registers.index.toNat + (m.registers.get x).toNat)) }
  | glyph {x} : Executed (.glyph x)
      { machine := m.withRegisters
          (m.registers.setIndex (Font.addressOf (m.registers.get x).toNat)) }
  | random {x nn} : Executed (.random x nn) { machine := m.executeRandom x nn }
  | draw {x y n : Nibble} {sprite} (hs : m.memory.slice m.registers.index.toNat n = .ok sprite) :
      Executed (.draw x y n)
        { machine := { m with
            screen :=
              (m.screen.draw (m.registers.get x).toNat (m.registers.get y).toNat sprite).screen
            registers := m.registers.setFlag
              (m.screen.draw (m.registers.get x).toNat (m.registers.get y).toNat sprite).collision }
          effect := .drawn }
  | readDelay {x} : Executed (.readDelay x) { machine := m.setRegister x m.timers.delay }
  | keyRead {x k} (hk : m.keypad.firstPressed = some k) : Executed (.readKey x)
      { machine := m.setRegister x (.ofNat 8 k) }
  | keyAwaited {x} (hk : m.keypad.firstPressed = none) : Executed (.readKey x) { machine := m }
  | setDelay {x} : Executed (.setDelay x)
      { machine := { m with timers := { m.timers with delay := m.registers.get x } } }
  | setSound {x} : Executed (.setSound x)
      { machine := { m with timers := { m.timers with sound := m.registers.get x } } }
  | storeDigits {x memory}
      (hr : m.memory.replace m.registers.index.toNat (m.registers.get x).decimal = .ok memory) :
      Executed (.storeDigits x) { machine := { m with memory } }
  | store {x memory}
      (hr : m.memory.replace m.registers.index.toNat (m.registers.upTo x) = .ok memory) :
      Executed (.store x) { machine := { m with memory, registers := m.registers.passBlock x } }
  | load {x : Nibble} {bs} (hs : m.memory.slice m.registers.index.toNat (x + 1) = .ok bs) :
      Executed (.load x)
        { machine := { m with registers := (m.registers.fill x bs).passBlock x } }
  | unknown {w} : Executed (.unknown w)
      { machine := m, effect := .unsupported w, log := [.unknownWord w] }

variable {m} in
/-- **What an instruction leaves behind that does not fault.** -/
theorem executed_of_execute {i : Instruction} {e : Execution} (h : m.execute i = .ok e) :
    m.Executed i e := by
  cases i with
  -- the instructions that look before they write, each left with the case that did not fault
  | ret =>
    simp only [execute, executeReturn] at h
    split at h <;> cases h
    exact .ret ‹_›
  | call nnn =>
    simp only [execute, executeCall] at h
    split at h <;> cases h
    exact .call ‹_›
  | draw x y n =>
    simp only [execute, executeDraw] at h
    split at h <;> cases h
    exact .draw ‹_›
  | readKey x =>
    simp only [execute] at h
    split at h <;> cases h
    · exact .keyRead ‹_›
    · exact .keyAwaited ‹_›
  | storeDigits x =>
    simp only [execute, storeAtIndex] at h
    split at h <;> cases h
    exact .storeDigits ‹_›
  | store x =>
    simp only [execute, storeAtIndex] at h
    split at h <;> cases h
    exact .store ‹_›
  | load x =>
    simp only [execute, loadBlock] at h
    split at h <;> cases h
    exact .load ‹_›
  | _ => cases h; constructor

@[simp] theorem stack_put (r : Registers) (x : Nibble) (c : Computed) :
    (r.put x c).stack = r.stack := by
  obtain ⟨value, _ | flag⟩ := c <;> rfl

@[simp] theorem index_put (r : Registers) (x : Nibble) (c : Computed) :
    (r.put x c).index = r.index := by
  obtain ⟨value, _ | flag⟩ := c <;> rfl

@[simp] theorem pc_put (r : Registers) (x : Nibble) (c : Computed) : (r.put x c).pc = r.pc := by
  obtain ⟨value, _ | flag⟩ := c <;> rfl

/-- What no instruction writes is the same in `m` and `n`. -/
structure Kept (m n : Machine) : Prop where
  name : n.name = m.name
  opcode : n.opcode = m.opcode
  image : n.image = m.image
  keypad : n.keypad = m.keypad
  config : n.config = m.config
  halted : n.halted = m.halted

variable {m} in
theorem kept_of_execute {i : Instruction} {e : Execution} (h : m.execute i = .ok e) :
    m.Kept e.machine := by
  cases executed_of_execute h <;> exact ⟨rfl, rfl, rfl, rfl, rfl, rfl⟩

variable {m} in
/-- No instruction writes the counter by itself; where it leads is told by its flow. -/
theorem pc_of_execute {i : Instruction} {e : Execution} (h : m.execute i = .ok e) :
    e.machine.registers.pc = m.registers.pc := by
  cases executed_of_execute h with
  | combine => exact pc_put ..
  | shift => exact pc_put ..
  | load => simp only [Registers.passBlock, Registers.setIndex, Registers.pc_fill]
  | _ => rfl

variable {m} in
theorem effect_of_execute {i : Instruction} {e : Execution} (h : m.execute i = .ok e) :
    e.effect = i.effect := by
  cases executed_of_execute h <;> rfl

variable {m} in
/-- Being passed over is never the effect of an instruction itself. -/
theorem effect_ne_ignored {i : Instruction} {e : Execution} (h : m.execute i = .ok e) (f : Fault) :
    e.effect ≠ .ignored f := by
  rw [effect_of_execute h]
  cases i <;> simp [Instruction.effect]

/-! ### The ways a step can go -/

/-- What a step leaves behind whose instruction, the word `w`, faulted. -/
def afterFault (w : Word) (f : Fault) : Reply (Except Error Effect) :=
  let reply := (m.fetched w).settle m.registers.pc f
  { reply with log := .fetched m.registers.pc w (.ofWord w) :: reply.log }

/-- What a step leaves behind whose instruction, the word `w`, was executed. -/
def afterExecution (w : Word) (e : Execution) : Reply (Except Error Effect) where
  result := .ok e.effect
  machine := e.machine.withRegisters (e.machine.registers.follow e.flow)
  log := .fetched m.registers.pc w (.ofWord w) :: e.log

/-- The ways a step can go, each with what it leaves behind. -/
inductive StepCase : Reply (Except Error Effect) → Prop where
  /-- The machine has halted before. -/
  | halted {f : Fault} (hm : m.halted = some f) : StepCase ⟨.error .halted, m, []⟩
  /-- There is no word at the program counter. -/
  | unfetched {e : MemoryError} (hm : m.halted = none)
      (hf : m.memory.fetch m.registers.pc = .error e) : StepCase (m.halt (.memory e))
  /-- The instruction faults. -/
  | faulted {w : Word} {f : Fault} (hm : m.halted = none)
      (hf : m.memory.fetch m.registers.pc = .ok w)
      (hx : (m.fetched w).execute (.ofWord w) = .error f) : StepCase (m.afterFault w f)
  /-- The instruction is executed. -/
  | executed {w : Word} {e : Execution} (hm : m.halted = none)
      (hf : m.memory.fetch m.registers.pc = .ok w)
      (hx : (m.fetched w).execute (.ofWord w) = .ok e) : StepCase (m.afterExecution w e)

variable {m}

theorem step_of_halted {f : Fault} (hm : m.halted = some f) :
    m.step = ⟨.error .halted, m, []⟩ := by
  simp only [step, hm]

theorem step_of_unfetched {e : MemoryError} (hm : m.halted = none)
    (hf : m.memory.fetch m.registers.pc = .error e) : m.step = m.halt (.memory e) := by
  simp only [step, hm, hf]

theorem step_of_faulted {w : Word} {f : Fault} (hm : m.halted = none)
    (hf : m.memory.fetch m.registers.pc = .ok w)
    (hx : (m.fetched w).execute (.ofWord w) = .error f) : m.step = m.afterFault w f := by
  simp only [step, hm, hf, executeWord, Work.run_execute, hx, Work.whole]
  rfl

/-- A running machine that fetches a word executes it. -/
theorem step_of_fetched {w : Word} (hm : m.halted = none)
    (hf : m.memory.fetch m.registers.pc = .ok w) : m.step = m.executeWord w := by
  simp only [step, hm, hf]

variable (m) in
/-- The machine after the word `w`, which was fetched at its counter. -/
def afterWord (w : Word) : Machine := (m.executeWord w).machine

theorem executeWord_of_executed {w : Word} {e : Execution}
    (hx : (m.fetched w).execute (.ofWord w) = .ok e) : m.executeWord w = m.afterExecution w e := by
  simp only [executeWord, Work.run_execute, hx, Work.whole]
  rfl

theorem step_of_executed {w : Word} {e : Execution} (hm : m.halted = none)
    (hf : m.memory.fetch m.registers.pc = .ok w)
    (hx : (m.fetched w).execute (.ofWord w) = .ok e) : m.step = m.afterExecution w e := by
  rw [step_of_fetched hm hf, executeWord_of_executed hx]

variable (m) in
/-- **Every step goes one of the four ways.** -/
theorem stepCase : m.StepCase m.step := by
  cases hm : m.halted with
  | some f => rw [step_of_halted hm]; exact .halted hm
  | none =>
    cases hf : m.memory.fetch m.registers.pc with
    | error e => rw [step_of_unfetched hm hf]; exact .unfetched hm hf
    | ok w =>
      cases hx : (m.fetched w).execute (.ofWord w) with
      | error f => rw [step_of_faulted hm hf hx]; exact .faulted hm hf hx
      | ok e => rw [step_of_executed hm hf hx]; exact .executed hm hf hx

/-- A step without an error has executed the word at the counter, or has passed over its fault. -/
theorem step_of_ok {effect : Effect} (h : m.step.result = .ok effect) :
    (∃ w e, m.memory.fetch m.registers.pc = .ok w ∧
      (m.fetched w).execute (.ofWord w) = .ok e ∧
      effect = e.effect ∧ m.step = m.afterExecution w e) ∨
    ∃ w f, m.memory.fetch m.registers.pc = .ok w ∧
      (m.fetched w).execute (.ofWord w) = .error f ∧
      effect = .ignored f ∧ m.step.machine = m.fetched w := by
  generalize hr : m.step = reply at h ⊢
  cases hr ▸ m.stepCase with
  | halted | unfetched => cases h
  | @faulted w f hm hf hx =>
    refine .inr ⟨w, f, hf, hx, ?_⟩
    -- the policy that halts has no such answer
    simp only [afterFault, settle_eq] at h ⊢
    split at h
    · cases h
    · cases h
      exact ⟨rfl, rfl⟩
  | @executed w e hm hf hx =>
    cases h
    exact .inl ⟨w, e, hf, hx, rfl, rfl⟩

/-- An error halts the machine; the fetched word and the counter may have moved on, and nothing else
has changed. -/
theorem machine_of_step_error {e : Error} (h : m.step.result = .error e) :
    ∃ opcode pc f, m.step.machine =
      { m with opcode, registers := { m.registers with pc }, halted := some f } := by
  generalize hr : m.step = reply at h ⊢
  cases hr ▸ m.stepCase with
  | halted hm => exact ⟨m.opcode, m.registers.pc, _, by rw [← hm]⟩
  | unfetched => exact ⟨m.opcode, m.registers.pc, _, rfl⟩
  | @faulted w f hm hf hx =>
    refine ⟨w, m.registers.pc + Word.size, f, ?_⟩
    simp only [afterFault, settle_eq] at h ⊢
    split at h
    · rfl
    · cases h
  | executed => cases h

/-- What no step writes is the same in `m` and `n`. -/
structure Unwritten (m n : Machine) : Prop where
  name : n.name = m.name
  image : n.image = m.image
  keypad : n.keypad = m.keypad
  config : n.config = m.config

theorem Unwritten.trans {n k : Machine} (h : m.Unwritten n) (h' : n.Unwritten k) :
    m.Unwritten k :=
  ⟨h'.name.trans h.name, h'.image.trans h.image, h'.keypad.trans h.keypad,
    h'.config.trans h.config⟩

variable (m) in
/-- A step that executes nothing changes the stored word, the counter and the halt at most. -/
theorem unwritten_of_step : m.Unwritten m.step.machine := by
  generalize hr : m.step = reply
  cases hr ▸ m.stepCase with
  | halted | unfetched => exact ⟨rfl, rfl, rfl, rfl⟩
  | faulted =>
    simp only [afterFault, settle_eq]
    split <;> exact ⟨rfl, rfl, rfl, rfl⟩
  | executed hm hf hx =>
    have hkept := kept_of_execute hx
    exact ⟨hkept.name, hkept.image, hkept.keypad, hkept.config⟩

/-! ### New machines -/

variable {rom : Rom} {config : Config} {environment : Nat → Byte} {log : Log}

/-- A new machine is at the start of the program, with the program in its memory. -/
theorem boot_of_new (h : Machine.new rom config environment = .ok (m, log)) :
    ∃ image, Memory.initial.load rom.data = .ok image ∧
      m = boot rom.name image config (config.generator environment) := by
  simp only [Machine.new, imageOf] at h
  cases hl : Memory.initial.load rom.data with
  | error e => rw [hl] at h; cases h
  | ok image => rw [hl] at h; cases h; exact ⟨image, rfl, rfl⟩

theorem fetch_of_new (h : Machine.new rom config environment = .ok (m, log)) {k : Nat}
    (hk : k + 1 < rom.data.length) :
    m.memory.fetch (Memory.origin + k) = .ok (.ofBytes rom.data[k] rom.data[k + 1]) := by
  obtain ⟨image, hl, rfl⟩ := boot_of_new h
  exact Memory.fetch_of_load hl hk

end Machine

end Chip8
