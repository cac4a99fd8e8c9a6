import Chip8.Proofs.Bare.Work

/-!
# Play never panics

Whatever is asked of a console, for any program and any configuration, the bare console gives the
same answers, and is afterwards the console made bare.

* `Bare.Machine.step_bare`, `Bare.Machine.perform_bare`, `Bare.Machine.performAll_bare` : one step,
  one request and many requests to a machine.
* `Bare.Console.tick_bare`, `Bare.Console.perform_bare` : one request to a console.
* `Bare.play_never_panics` : **every sequence of requests.**
-/

namespace Chip8

namespace Bare

/-! ### Machines -/

namespace Machine

variable (m : Chip8.Machine)

theorem settle_bare (pc : Nat) (f : Fault) : m.bare.settle f = (m.settle pc f).bare := by
  rw [settle, if_pos (Error.recoverable_fault f), Chip8.Machine.settle_eq]
  cases hp : m.config.policy <;> simp only [Chip8.Machine.bare, hp] <;> rfl

theorem executeWord_bare (w : Word) : m.bare.executeWord w = .ok (m.executeWord w).bare := by
  have hx := follows_execute (.ofWord w) { machine := m.fetched w }
  rw [executeWord, decode_eq, Chip8.Machine.executeWord]
  change conclude ((execute _).run (Execution.bare { machine := m.fetched w })) = _
  rw [hx]
  cases (Chip8.Work.execute (.ofWord w)).run { machine := m.fetched w } with
  | ok _ e => rfl
  | error f e => exact congrArg Except.ok (settle_bare e.machine m.registers.pc f)

/-- **A step** of the bare machine is the step of the machine. -/
theorem step_bare : m.bare.step = .ok m.step.bare := by
  have hf : fetch m.bare.memory m.bare.registers.pc = .ok (m.memory.fetch m.registers.pc) :=
    fetch_eq m.memory m.registers.pc
  have hb : m.bare.halted = m.halted.map .fault := rfl
  unfold step Chip8.Machine.step
  cases hm : m.halted with
  | some f =>
    rw [hb, hm]
    rfl
  | none =>
    rw [hb, hm, hf]
    cases m.memory.fetch m.registers.pc with
    | error e => rfl
    | ok w => exact executeWord_bare m w

/-! ### Setting up -/

theorem boot_bare (name : String) (image : Memory) (config : Config) (generator : Generator) :
    boot name image.cells.toList config generator =
      (Chip8.Machine.boot name image config generator).bare := by
  simp only [boot, Chip8.Machine.boot, Chip8.Machine.bare, Screen.rows_blank]
  rfl

theorem imageOf_bare (rom : Rom) :
    imageOf rom = .ok ((Chip8.Machine.imageOf rom).map (·.cells.toList)) := by
  rw [imageOf, initialCells_eq, Chip8.Machine.imageOf]
  simp only [bind, Except.bind, loadCells_eq]
  cases Memory.initial.load rom.data <;> rfl

theorem new_bare (rom : Rom) (config : Config) (environment : Nat → Byte) :
    new rom config environment =
      .ok ((Chip8.Machine.new rom config environment).map fun (m, _) => m.bare) := by
  rw [new, imageOf_bare, Chip8.Machine.new]
  cases Chip8.Machine.imageOf rom with
  | error e => rfl
  | ok image =>
    change Except.ok (Except.ok
      (boot rom.name image.cells.toList config (config.generator environment))) = _
    rw [boot_bare]
    rfl

theorem restart_bare : m.bare.restart = m.restart.bare := by
  have hb := boot_bare m.name m.image m.config m.generator
  have hs := clear_rows m.screen
  unfold restart
  change { boot m.name m.image.cells.toList m.config m.generator with
    screen := clear m.screen.rows } = m.restart.bare
  rw [hb, hs]
  rfl

theorem load_bare (rom : Rom) : m.bare.load rom = .ok (m.load rom).bare := by
  rw [load, imageOf_bare, Chip8.Machine.load]
  cases Chip8.Machine.imageOf rom with
  | error e => rfl
  | ok image =>
    change Except.ok (Reply.mk (Except.ok ())
      (Chip8.Machine.bare { m with name := rom.name, image := image }).restart) = _
    rw [restart_bare]
    rfl

/-- **A request** to the bare machine is the request to the machine. -/
theorem perform_bare (command : Chip8.Machine.Command) :
    m.bare.perform command = .ok (m.perform command).bare := by
  cases command with
  | step => exact step_bare m
  | setKeypad | tickTimers | setGenerator => rfl
  | reset =>
    rw [perform, restart_bare]
    rfl
  | load rom =>
    rw [perform, load_bare]
    rfl

/-- **Requests one after the other.** -/
theorem performAll_bare (commands : List Chip8.Machine.Command) :
    m.bare.performAll commands = .ok (m.performAll commands).bare := by
  induction commands generalizing m with
  | nil => rfl
  | cons command commands ih =>
    rw [performAll, perform_bare]
    change (performAll (m.perform command).machine.bare commands >>= _) = _
    rw [ih]
    rfl

end Machine

/-! ### Consoles -/

namespace Console

variable (c : Chip8.Console)

theorem updateAudio_bare : c.bare.updateAudio = c.updateAudio.1.bare := by
  unfold Chip8.Console.updateAudio
  by_cases h : c.machine.timers.sounding = c.sounding
  · rw [if_pos h]
    exact congrArg (Console.mk c.machine.bare) h
  · rw [if_neg h]
    rfl

theorem finishTick_bare : c.bare.finishTick = c.finishTick.1.bare := by
  unfold finishTick Chip8.Console.finishTick
  rw [updateAudio_bare]
  exact updateAudio_bare (c.updateAudio.1.withMachine c.updateAudio.1.machine.tickTimers)

theorem steps_bare (n : Nat) (s : Summary) :
    steps n c.bare s = .ok (Chip8.Console.steps n c s).bare := by
  induction n generalizing c s with
  | zero => rfl
  | succ n ih =>
    have hs : c.bare.machine.step = .ok c.machine.step.bare := Machine.step_bare c.machine
    rw [steps, hs, Chip8.Console.steps]
    generalize c.machine.step = reply
    obtain ⟨_ | effect, m, log⟩ := reply
    · rfl
    · exact ih (c.withMachine m) (s.record effect)

theorem tick_bare (keys : Keypad) (n : Nat) : c.bare.tick keys n = .ok (c.tick keys n).bare := by
  have hs := steps_bare (c.withMachine (c.machine.setKeypad keys)) n {}
  unfold tick Chip8.Console.tick
  change (steps n (c.withMachine (c.machine.setKeypad keys)).bare {} >>= _) = _
  rw [hs]
  generalize Chip8.Console.steps n (c.withMachine (c.machine.setKeypad keys)) {} = stepped
  obtain ⟨_ | summary, stepped, signals, log⟩ := stepped
  · rfl
  · change Except.ok (Reply.mk (Except.ok summary) stepped.bare.finishTick) = _
    rw [finishTick_bare]
    rfl

theorem frame_bare (keys : Keypad) : c.bare.frame keys = .ok (c.frame keys).bare :=
  tick_bare c keys c.machine.config.instructionsPerTick

theorem reset_bare : c.bare.reset = c.reset.bare := by
  have hr : c.bare.machine.restart = c.machine.restart.bare := Machine.restart_bare c.machine
  have ha := updateAudio_bare (c.withMachine c.machine.restart)
  rw [reset, hr]
  exact congrArg (Reply.mk ()) ha

/-- **A request** to the bare console is the request to the console. -/
theorem perform_bare (command : Chip8.Console.Command) :
    c.bare.perform command = .ok (c.perform command).bare := by
  cases command with
  | tick keys n =>
    rw [perform, tick_bare]
    rfl
  | frame keys =>
    rw [perform, frame_bare]
    rfl
  | reset =>
    rw [perform, reset_bare]
    rfl
  | machine command =>
    have hp : c.bare.machine.perform command = .ok (c.machine.perform command).bare :=
      Machine.perform_bare c.machine command
    rw [perform, hp]
    rfl

/-- **Requests one after the other.** -/
theorem performAll_bare (commands : List Chip8.Console.Command) :
    performAll c.bare commands = .ok (c.performAll commands).bare := by
  induction commands generalizing c with
  | nil => rfl
  | cons command commands ih =>
    rw [performAll, perform_bare]
    change (performAll (c.perform command).console.bare commands >>= _) = _
    rw [ih]
    rfl

end Console

/-- **No program and no sequence of requests makes a bare console panic.**  It is refused the same
programs as a console, answers the same to every request, and is in the same state afterwards. -/
theorem play_never_panics (rom : Rom) (config : Config) (environment : Nat → Byte)
    (commands : List Chip8.Console.Command) :
    play rom config environment commands =
      .ok ((Chip8.Machine.new rom config environment).map fun (m, _) =>
        (Chip8.Console.performAll { machine := m } commands).bare) := by
  rw [play, Machine.new_bare]
  cases Chip8.Machine.new rom config environment with
  | error e => rfl
  | ok started =>
    change (Console.performAll (Chip8.Console.bare { machine := started.1 }) commands >>= _) = _
    rw [Console.performAll_bare]
    rfl

end Bare

end Chip8
