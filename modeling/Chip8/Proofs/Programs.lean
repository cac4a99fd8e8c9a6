import Chip8.Proofs.Tick

/-!
# The program of a machine

A machine works on the program that was loaded last without an error, whatever else it was asked
for. Its name, the memory it starts from and its configuration are written nowhere else.

* `Machine.Command.program`, `Machine.programs`, `Console.programs` : the program after a request,
  and after any number of them, told from the answers.
* `Machine.Installed` : the machine is set up for a program.
* `Machine.Installed.perform`, `Machine.Installed.performAll` : one request and any number of them.
* `Console.installed_of_performAll` : **the same on a console.**
-/

namespace Chip8

namespace Machine

/-- The program after a request with the given answer, if it was `rom` before. -/
def Command.program {α : Type} (rom : Rom) (command : Command) (answer : Except Error α) : Rom :=
  match command, answer with
  | .load other, .ok _ => other
  | _, _ => rom

/-- The program after all requests with the given answers: the one that was loaded last. -/
def programs {α : Type} (rom : Rom) : List Command → List (Except Error α) → Rom
  | command :: commands, answer :: answers =>
    programs (command.program rom answer) commands answers
  | _, _ => rom

/-- The machine is set up for a program, with the given choices. -/
structure Installed (rom : Rom) (config : Config) (m : Machine) : Prop where
  name : m.name = rom.name
  image : imageOf rom = .ok m.image
  config : m.config = config

variable {m : Machine} {rom : Rom} {config : Config}

theorem Command.program_map {α β : Type} (command : Command) (answer : Except Error α)
    (f : α → β) : command.program rom (answer.map f) = command.program rom answer := by
  cases command <;> cases answer <;> rfl

namespace Installed

theorem of_new {environment : Nat → Byte} {log : Log}
    (h : Machine.new rom config environment = .ok (m, log)) :
    Installed rom config m := by
  obtain ⟨image, hi, rfl⟩ := boot_of_new h
  exact ⟨rfl, by rw [imageOf, hi]; rfl, rfl⟩

/-- A machine with the same setup is installed as well. -/
theorem of_eq (h : Installed rom config m) {n : Machine} (hname : n.name = m.name)
    (himage : n.image = m.image) (hconfig : n.config = m.config) : Installed rom config n :=
  ⟨hname.trans h.name, himage ▸ h.image, hconfig.trans h.config⟩

/-- No step writes what belongs to the setup. -/
theorem of_unwritten (h : Installed rom config m) {n : Machine} (hn : m.Unwritten n) :
    Installed rom config n :=
  h.of_eq hn.name hn.image hn.config

theorem perform (h : Installed rom config m) (command : Command) :
    Installed (command.program rom (m.perform command).result) config
      (m.perform command).machine := by
  cases command with
  | step => exact h.of_unwritten m.unwritten_of_step
  | setKeypad | tickTimers | setGenerator | reset => exact h.of_eq rfl rfl rfl
  | load other =>
    simp only [Machine.perform, load]
    cases hi : imageOf other with
    | error e => exact h
    | ok image => exact ⟨rfl, hi, h.config⟩

theorem performAll (h : Installed rom config m) (commands : List Command) :
    Installed (programs rom commands (m.performAll commands).result) config
      (m.performAll commands).machine := by
  induction commands generalizing m rom with
  | nil => exact h
  | cons command commands ih => exact ih (h.perform command)

end Installed

end Machine

/-! ### Consoles -/

namespace Console

open Machine (Installed)

/-- The program after a request with the given answer, if it was `rom` before. -/
def Command.program {α : Type} (rom : Rom) (command : Command) (answer : Except Error α) : Rom :=
  match command with
  | .machine command => command.program rom answer
  | .tick .. | .frame _ | .reset => rom

/-- The program after all requests with the given answers: the one that was loaded last. -/
def programs {α : Type} (rom : Rom) : List Command → List (Except Error α) → Rom
  | command :: commands, answer :: answers =>
    programs (command.program rom answer) commands answers
  | _, _ => rom

variable {c : Console} {rom : Rom} {config : Config}

theorem installed_of_tick (h : Installed rom config c.machine) (keys : Keypad) (n : Nat) :
    Installed rom config (c.tick keys n).console.machine :=
  (h.of_eq (n := c.machine.setKeypad keys) rfl rfl rfl).of_unwritten (c.unwritten_of_tick keys n)

theorem installed_of_perform (h : Installed rom config c.machine) (command : Command) :
    Installed (command.program rom (c.perform command).result) config
      (c.perform command).console.machine := by
  cases command with
  | tick keys n => exact installed_of_tick h keys n
  | frame keys => exact installed_of_tick h keys _
  | reset =>
    simp only [perform, reset, machine_updateAudio]
    exact h.of_eq rfl rfl rfl
  | machine command =>
    simp only [perform, Command.program, Machine.Command.program_map]
    exact h.perform command

/-- **A console works on the program that was loaded last**, with the choices it was made with. -/
theorem installed_of_performAll (h : Installed rom config c.machine) (commands : List Command) :
    Installed (programs rom commands (c.performAll commands).result) config
      (c.performAll commands).console.machine := by
  induction commands generalizing c rom with
  | nil => exact h
  | cons command commands ih => exact ih (installed_of_perform h command)

end Console

end Chip8
