import Chip8.Machine.Basic

/-!
# The work of setting a machine up

A machine is put to the start of a program one write after the other, over whatever it held before.
The memory for another program is prepared apart from the machine; if the program is refused, the
work ends there, and the machine is as it was.

* `Memory.clear`, `Screen.clear` : memory and screen are used again.
* `Setup` : a piece of work on a machine, which may be refused.
* `Setup.prepare` : the memory for a program.
* `Setup.reset`, `Setup.load` : the writes, in order.
-/

namespace Chip8

/-- Zeros in every cell, and then the font. -/
def Memory.clear (m : Memory) : Memory :=
  Memory.blit ⟨m.cells.map fun _ => 0⟩ Font.location Font.bytes

/-- Turns every pixel off. -/
def Screen.clear (s : Screen) : Screen := ⟨s.cells.map fun _ => false⟩

/-- A machine that is being set up. -/
structure Setup.State where
  machine : Machine
  /-- What was logged. -/
  log : Log := []

/-- A piece of work. After a refusal the writes made before it stand. -/
abbrev Setup := EStateM Error Setup.State

namespace Setup

/-- What is read from the machine as it is now. -/
def look {α : Type} (f : Machine → α) : Setup α := do return f (← get).machine

/-- Changes the machine. -/
def change (f : Machine → Machine) : Setup Unit := modify fun s => { s with machine := f s.machine }

/-- Logs an entry. -/
def note (entry : Log.Entry) : Setup Unit := modify fun s => { s with log := s.log ++ [entry] }

/-- The memory for a program, beside the memory of the machine. -/
def prepare (rom : Rom) : Setup Memory := do
  let zeros : Memory := ⟨.replicate Memory.size 0⟩
  match zeros.clear.load rom.data with
  | .error e => throw (.rom e)
  | .ok image =>
    note (Machine.loadedEntry rom)
    return image

/-- Back to the start of the program. -/
def reset : Setup Unit := do
  note (.reset (← look (·.name)))
  change ({ · with opcode := 0 })
  change fun m => { m with memory := m.image }
  change ({ · with registers := .start })
  change ({ · with timers := {} })
  change fun m => { m with screen := m.screen.clear }
  change ({ · with keypad := .released })
  change ({ · with halted := none })

/-- Replaces the program and starts it. -/
def load (rom : Rom) : Setup Unit := do
  let image ← prepare rom
  change ({ · with image })
  change ({ · with name := rom.name })
  reset

end Setup

end Chip8
