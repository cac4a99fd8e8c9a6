import Chip8.Proofs.Programs
import Chip8.Proofs.Speaker

/-!
# A console after a reset

A reset takes everything back that programs and requests have done, except that the random bytes go
on where they are.

* `Machine.restart_eq_new` : a machine that is restarted is a new one with other random bytes.
* `Console.reset_eq` : a console after a reset, and what its devices are told.
* `Console.reset_eq_new` : **a console that was reset cannot be told from a new one**, whatever was
  asked of it before and whatever is asked of both afterwards.
-/

namespace Chip8

/-- **A machine that is restarted is a new one**, for the program that it is set up for and with the
random bytes that it has. -/
theorem Machine.restart_eq_new {m : Machine} {rom : Rom} {config : Config}
    (h : Installed rom config m) (environment : Nat → Byte) :
    ∃ fresh log, Machine.new rom config environment = .ok (fresh, log) ∧
      m.restart = fresh.setGenerator m.generator := by
  refine ⟨boot rom.name m.image config (config.generator environment), [loadedEntry rom], ?_, ?_⟩
  · rw [Machine.new, h.image]
    rfl
  · rw [restart, h.name, h.config]
    rfl

namespace Console

variable {m : Machine} {rom : Rom} {config : Config} {environment : Nat → Byte} {log : Log}

/-- The sound timer is at zero after a reset, so that the speaker is told to stop if it plays. -/
theorem reset_eq (c : Console) :
    c.reset =
      { result := ()
        console := { machine := c.machine.restart }
        signals := .clearDisplay :: if c.sounding then [.stopSound] else []
        log := [.reset c.machine.name] } := by
  simp only [reset, updateAudio_eq]
  obtain ⟨machine, _ | _⟩ := c <;> rfl

/-- **A console that was reset cannot be told from a new one.**  Take a console that was made for a
program, and ask anything of it. After a reset it is a new console for the program that was loaded
last, with the same choices, but for the random bytes, which go on where they are, whatever the
environment has for the new one; so both answer the same to any further requests, tell their devices
the same and hold the same machines. The reset itself darkens the display, and it stops the speaker
exactly if the speaker was last told to start. -/
theorem reset_eq_new (hnew : Machine.new rom config environment = .ok (m, log))
    (commands : List Command) (bytes : Nat → Byte) :
    let before := performAll { machine := m } commands
    let reset := before.console.reset
    ∃ fresh log, Machine.new (programs rom commands before.result) config bytes = .ok (fresh, log) ∧
      let renewed : Console := { machine := fresh.setGenerator before.console.machine.generator }
      reset.console = renewed ∧
        (∀ further, reset.console.performAll further = renewed.performAll further) ∧
        reset.signals =
          .clearDisplay :: if Signal.playing before.signals then [.stopSound] else [] := by
  intro before reset
  have hinstalled := installed_of_performAll (c := { machine := m }) (.of_new hnew) commands
  obtain ⟨fresh, log', hfresh, hrestart⟩ := Machine.restart_eq_new hinstalled bytes
  have hconsole : reset.console =
      { machine := fresh.setGenerator before.console.machine.generator } := by
    rw [← hrestart]
    exact congrArg (·.console) before.console.reset_eq
  refine ⟨fresh, log', hfresh, hconsole, fun further => by rw [hconsole], ?_⟩
  have htold : Told before.console before.signals := told_of_performAll m commands
  rw [← htold.sounding]
  exact congrArg (·.signals) before.console.reset_eq

/-- A machine whose program starts the tone. -/
def humming : Machine :=
  .boot "hum" (Memory.initial.blit Memory.origin [0x60, 0x05, 0xF0, 0x18]) {} .zeros

/-- The machine `humming` after its program. -/
def hummed : Machine :=
  { humming with
    opcode := 0xF018
    registers := { Registers.start.set Registers.offsetRegister 5 with pc := 0x204 }
    timers := { sound := 5 } }

theorem hummed_of_steps : humming.step.machine.step.machine = hummed := by
  have hnew : Machine.new ⟨"hum", [0x60, 0x05, 0xF0, 0x18]⟩ {} = .ok (humming, _) := rfl
  have h₀ : humming.memory.fetch 0x200 = .ok 0x6005 :=
    (Machine.fetch_of_new hnew (k := 0) (by decide)).trans rfl
  have h₂ : humming.memory.fetch 0x202 = .ok 0xF018 :=
    (Machine.fetch_of_new hnew (k := 2) (by decide)).trans rfl
  obtain ⟨m, hm⟩ : ∃ m, m = { humming with
      opcode := 0x6005
      registers := { Registers.start.set Registers.offsetRegister 5 with pc := 0x202 } } :=
    ⟨_, rfl⟩
  have hs₀ : humming.step.machine = m := by
    rw [hm, Machine.step_of_executed (m := humming) rfl h₀ rfl]
    rfl
  have hs₁ : m.step = m.afterExecution 0xF018
      { machine := { m.fetched 0xF018 with timers := { sound := 5 } } } := by
    rw [hm]
    exact Machine.step_of_executed rfl h₂ rfl
  rw [hs₀, hs₁, hm]
  rfl

/-- Another program is loaded past the console, starts the tone and is told in a tick without
instructions; the reset stops the tone and starts that program again. -/
theorem reset_eq_new_humming :
    let rom : Rom := ⟨"hum", [0x60, 0x05, 0xF0, 0x18]⟩
    let commands : List Command :=
      [.machine (.load rom), .machine .step, .machine .step, .tick .released 0]
    let before := performAll { machine := clearing } commands
    Machine.new ⟨"", [0x00, 0xE0]⟩ {} = .ok (clearing, [.loaded "" 2]) ∧
      before.signals = [.startSound] ∧
      before.console.reset.console = { machine := humming } ∧
      before.console.reset.signals = [.clearDisplay, .stopSound] := by
  intro rom commands before
  have hnew : Machine.new ⟨"", [0x00, 0xE0]⟩ {} = .ok (clearing, [.loaded "" 2]) := rfl
  -- the tick meets the machine that the two steps of the other program leave behind
  have hbefore : before.console = (perform { machine := hummed } (.tick .released 0)).console ∧
      before.signals = (perform { machine := hummed } (.tick .released 0)).signals := by
    have hload : (clearing.load rom).machine = humming := rfl
    simp only [before, commands, performAll, perform, Machine.perform, withMachine, hload,
      hummed_of_steps, List.nil_append, List.append_nil, and_self]
  have hsignals : before.signals = [.startSound] := by
    rw [hbefore.2]
    decide
  have hgenerator : before.console.machine.generator = .zeros := by
    rw [hbefore.1]
    rfl
  obtain ⟨fresh, log, hfresh, hconsole, -, hreset⟩ := reset_eq_new hnew commands fun _ => 0
  have hprogram : programs ⟨"", [0x00, 0xE0]⟩ commands before.result = rom := rfl
  rw [hprogram] at hfresh
  cases hfresh
  refine ⟨hnew, hsignals, hconsole.trans ?_, hreset.trans ?_⟩
  · rw [hgenerator]
    rfl
  · rw [hsignals]
    rfl

end Console

end Chip8
