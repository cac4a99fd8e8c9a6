import Chip8.Proofs.Bare.Play
import Chip8.Proofs.Bounds
import Chip8.Proofs.Programs

/-!
# Where a bare machine can get to

The arrays and the numbers of a bare machine have no bounds of their own. Still they stay within
the same bounds for every program and whatever is asked of the machine, requests that are refused
included.

* `Bare.Machine.InBounds` : the bounds.
* `Bare.Machine.inBounds_of_performAll` : **they hold after every sequence of requests.**
-/

namespace Chip8

namespace Bare.Machine

/-- The bounds of a bare machine whose program is `rom` and which was made with the choices
`config`. -/
structure InBounds (rom : Rom) (config : Config) (m : Machine) : Prop where
  length_memory : m.memory.length = 0x1000
  length_image : m.image.length = 0x1000
  image : m.image = Font.bytes ++ .replicate (0x200 - Font.bytes.length) 0 ++ rom.data ++
    .replicate (0x1000 - (0x200 + rom.data.length)) 0
  index : m.registers.index ≤ 0xFFF
  depth : m.registers.stack.length ≤ 16
  stack : ∀ a ∈ m.registers.stack, 0x002 ≤ a ∧ a ≤ 0x1000
  pc : m.registers.pc ≤ 0x10FE
  /-- It halts only on errors of the stack and of memory. -/
  halted : ∀ e, m.halted = some e →
    (∃ cause, e = .fault (.stack cause)) ∨
      ∃ a, e = .fault (.memory (.outOfBounds a)) ∧ 0x1000 ≤ a ∧ a ≤ 0x10FE
  /-- Only a fetch halts a machine that passes over faults. -/
  ignoring : config.policy = .ignore → ∀ e, m.halted = some e →
    0xFFE < m.registers.pc ∧ e = .fault (.memory (.outOfBounds (max m.registers.pc 0x1000)))
  config : m.config = config

variable {rom : Rom} {config : Config} {environment : Nat → Byte}

/-- What is forgotten of a machine bounds the bare one. -/
theorem inBounds_bare {m : Chip8.Machine} (hb : m.Bounded) (hi : m.Installed rom config) :
    InBounds rom config m.bare where
  length_memory := Vector.length_toList
  length_image := Vector.length_toList
  image := by
    have himage := hi.image
    rw [Chip8.Machine.imageOf] at himage
    cases hl : Memory.initial.load rom.data with
    | error e => rw [hl] at himage; cases himage
    | ok image =>
      rw [hl] at himage
      cases himage
      exact Memory.toList_load hl
  index := Nat.le_of_lt_succ m.registers.index.isLt
  depth := m.registers.stack.length_le
  stack a ha := hb.stack a (List.mem_reverse.2 ha)
  pc := hb.pc
  halted e he := by
    obtain ⟨f, hf, rfl⟩ := Option.map_eq_some_iff.1 he
    have hhalt := hb.halted f hf
    cases f with
    | stack cause => exact .inl ⟨cause, rfl⟩
    | memory cause =>
      obtain ⟨a⟩ := cause
      exact .inr ⟨a, rfl, hhalt⟩
  ignoring hp e he := by
    obtain ⟨f, hf, rfl⟩ := Option.map_eq_some_iff.1 he
    obtain ⟨hpc, hfault⟩ := hb.ignoring (hi.config ▸ hp) f hf
    exact ⟨hpc, congrArg Error.fault hfault⟩
  config := hi.config

theorem exists_of_new {m : Machine} (h : new rom config environment = .ok (.ok m)) :
    ∃ n log, Chip8.Machine.new rom config environment = .ok (n, log) ∧ m = n.bare := by
  rw [new_bare] at h
  cases hn : Chip8.Machine.new rom config environment with
  | error e => rw [hn] at h; cases h
  | ok made =>
    rw [hn] at h
    cases h
    exact ⟨made.1, made.2, rfl, rfl⟩

/-- **Whatever is asked of a machine, it stays in bounds**, with the memory image of the program
that was loaded last. -/
theorem inBounds_of_performAll {m : Machine} (hnew : new rom config environment = .ok (.ok m))
    (commands : List Chip8.Machine.Command) :
    ∃ reply, m.performAll commands = .ok reply ∧
      InBounds (Chip8.Machine.programs rom commands reply.result) config reply.machine := by
  obtain ⟨n, log, hn, rfl⟩ := exists_of_new hnew
  obtain ⟨image, -, hboot⟩ := Chip8.Machine.boot_of_new hn
  have hbounded : n.Bounded := hboot ▸ .of_start rfl rfl
  have hinstalled : n.Installed rom config := .of_new hn
  exact ⟨_, performAll_bare n commands,
    inBounds_bare (hbounded.performAll commands) (hinstalled.performAll commands)⟩

end Bare.Machine

namespace Machine

/-- A machine whose program jumps to the highest address there is. -/
def climbing : Machine :=
  .boot "" (Memory.initial.blit Memory.origin [0x60, 0xFF, 0xBF, 0xFF]) { policy := .ignore } .zeros

/-- The machine `climbing` halted behind its program. -/
def climbed : Machine :=
  { climbing with
    opcode := 0xBFFF
    registers := { Registers.start.set Registers.offsetRegister 0xFF with pc := 0x10FE }
    halted := some (.memory (.outOfBounds 0x10FE)) }

theorem climbed_of_steps : climbing.step.machine.step.machine.step.machine = climbed := by
  have hnew : new ⟨"", [0x60, 0xFF, 0xBF, 0xFF]⟩ { policy := .ignore } =
      .ok (climbing, _) := rfl
  have h₀ : climbing.memory.fetch 0x200 = .ok 0x60FF :=
    (fetch_of_new hnew (k := 0) (by decide)).trans rfl
  have h₂ : climbing.memory.fetch 0x202 = .ok 0xBFFF :=
    (fetch_of_new hnew (k := 2) (by decide)).trans rfl
  have htop : climbing.memory.fetch 0x10FE = .error (.outOfBounds 0x10FE) :=
    Memory.fetch_eq_error_iff.2 ⟨by decide, rfl⟩
  obtain ⟨m, hm⟩ : ∃ m, m = { climbing with
      opcode := 0x60FF
      registers := { Registers.start.set Registers.offsetRegister 0xFF with pc := 0x202 } } :=
    ⟨_, rfl⟩
  obtain ⟨n, hn⟩ : ∃ n, n = { climbed with halted := none } := ⟨_, rfl⟩
  have hs₀ : climbing.step.machine = m := by
    rw [hm, step_of_executed (m := climbing) rfl h₀ rfl]
    rfl
  have hs₁ : m.step.machine = n := by
    have hf : m.memory.fetch m.registers.pc = .ok 0xBFFF := by
      rw [hm]
      exact h₂
    have hx : (m.fetched 0xBFFF).execute (.ofWord 0xBFFF) =
        .ok { machine := m.fetched 0xBFFF, flow := .jump 0x10FE } := by
      rw [hm]
      rfl
    rw [step_of_executed (by rw [hm]; rfl) hf hx, hm, hn]
    rfl
  have hs₂ : n.step.machine = climbed := by
    have hf : n.memory.fetch n.registers.pc = .error (.outOfBounds 0x10FE) := by
      rw [hn]
      exact htop
    rw [step_of_unfetched (by rw [hn]) hf, hn]
    rfl
  rw [hs₀, hs₁, hs₂]

end Machine

namespace Bare.Machine

/-- A machine that passes over faults, to which a program without bytes is offered, reaches the
highest address and is halted there. -/
theorem inBounds_of_performAll_climbing :
    let rom : Rom := ⟨"", [0x60, 0xFF, 0xBF, 0xFF]⟩
    new rom { policy := .ignore } (fun _ => 0) = .ok (.ok Chip8.Machine.climbing.bare) ∧
      ∃ reply, Chip8.Machine.climbing.bare.performAll [.step, .load ⟨"", []⟩, .step, .step] =
          .ok reply ∧
        InBounds rom { policy := .ignore } reply.machine ∧
        reply.machine.registers.pc = 0x10FE ∧
        reply.machine.halted = some (.fault (.memory (.outOfBounds 0x10FE))) := by
  intro rom
  have hnew : new rom { policy := .ignore } (fun _ => 0) =
      .ok (.ok Chip8.Machine.climbing.bare) := by
    rw [new_bare]
    rfl
  obtain ⟨reply, hreply, hbounds⟩ :=
    inBounds_of_performAll hnew [.step, .load ⟨"", []⟩, .step, .step]
  have hmachine : reply.machine = Chip8.Machine.climbed.bare := by
    rw [performAll_bare] at hreply
    cases hreply
    have hload (n : Chip8.Machine) : (n.load ⟨"", []⟩).machine = n := rfl
    rw [← Chip8.Machine.climbed_of_steps]
    simp only [Chip8.Machine.Reply.bare, Chip8.Machine.performAll, Chip8.Machine.perform, hload]
  refine ⟨hnew, reply, hreply, ?_, congrArg (·.registers.pc) hmachine,
    congrArg (·.halted) hmachine⟩
  rw [performAll_bare] at hreply
  cases hreply
  exact hbounds

end Bare.Machine

end Chip8
