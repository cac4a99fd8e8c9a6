import Chip8.Bare.Machine
import Chip8.Console

/-!
# Bare consoles

A console around a bare machine. What its display and its speaker are told is left out: the devices
answer nothing.

* `Bare.Console.tick`, `Bare.Console.frame`, `Bare.Console.reset`, `Bare.Console.performAll` : as
  for a `Chip8.Console`.
* `Bare.play` : a program on a new console, and requests to it.
-/

namespace Chip8

namespace Bare

/-- A bare machine with its display and its speaker. -/
structure Console where
  machine : Machine
  /-- The speaker was told to play, and not to stop since. -/
  sounding : Bool := false

namespace Console

/-- What a request to a bare console leaves behind. -/
structure Reply (α : Type) where
  /-- The answer. -/
  result : α
  /-- The console afterwards. -/
  console : Console

variable (c : Console)

/-- The speaker follows the sound timer. -/
def updateAudio : Console := { c with sounding := c.machine.timers.sounding }

/-- The end of a tick: the speaker is told, the timers move, and the speaker is told again. -/
def finishTick : Console :=
  let c := c.updateAudio
  { c with machine := { c.machine with timers := c.machine.timers.tick } }.updateAudio

/-- Takes up to `n` steps; the first error is the last step. -/
def steps : Nat → Console → Summary → Except Panic (Reply (Except Error Summary))
  | 0, c, s => return ⟨.ok s, c⟩
  | n + 1, c, s => do
    let reply ← c.machine.step
    let stepped := { c with machine := reply.machine }
    match reply.result with
    | .error e => return ⟨.error e, stepped⟩
    | .ok effect => steps n stepped (s.record effect)

/-- Takes `n` steps with the given keys, and then moves the timers unless a step has failed. -/
def tick (keys : Keypad) (n : Nat) : Except Panic (Reply (Except Error Summary)) := do
  let stepped ← steps n { c with machine := { c.machine with keypad := keys } } {}
  match stepped.result with
  | .error _ => return stepped
  | .ok _ => return { stepped with console := stepped.console.finishTick }

/-- A tick with as many steps as were chosen for the machine. -/
def frame (keys : Keypad) : Except Panic (Reply (Except Error Summary)) :=
  c.tick keys c.machine.config.instructionsPerTick

/-- Back to the start of the program; the speaker is told. -/
def reset : Reply Unit := ⟨(), { c with machine := c.machine.restart }.updateAudio⟩

/-- Answers one request. -/
def perform : Chip8.Console.Command → Except Panic (Reply (Except Error Chip8.Console.Answer))
  | .tick keys n => do
    let reply ← c.tick keys n
    return { reply with result := reply.result.map .ticked }
  | .frame keys => do
    let reply ← c.frame keys
    return { reply with result := reply.result.map .ticked }
  | .reset => return { c.reset with result := .ok .done }
  | .machine command => do
    let reply ← c.machine.perform command
    return ⟨reply.result.map .effect, { c with machine := reply.machine }⟩

/-- Answers requests one after the other. -/
def performAll (c : Console) : List Chip8.Console.Command →
    Except Panic (Reply (List (Except Error Chip8.Console.Answer)))
  | [] => return ⟨[], c⟩
  | command :: commands => do
    let reply ← c.perform command
    let rest ← performAll reply.console commands
    return { rest with result := reply.result :: rest.result }

end Console

/-- A console for a program, and requests to it; a program that is refused gets none. -/
def play (rom : Rom) (config : Config) (environment : Nat → Byte)
    (commands : List Chip8.Console.Command) :
    Except Panic (Except Error (Console.Reply (List (Except Error Chip8.Console.Answer)))) := do
  match ← Machine.new rom config environment with
  | .error e => return .error e
  | .ok machine =>
    let reply ← Console.performAll { machine } commands
    return .ok reply

end Bare

end Chip8
