import Chip8.Machine.Run

/-!
# Consoles

A console gives its machine the keys and a number of instructions for each tick of the timers, and
tells a display and a speaker what becomes of it.

* `Console.updateAudio` : tells the speaker when the tone begins or ends.
* `Console.steps` : a number of steps, up to the first error.
* `Console.tick`, `Console.frame` : one tick. If a step fails, the tick ends there: the timers do
  not move and the speaker is told nothing.
* `Console.reset` : back to the start of the program, on a dark display.
* `Console.Command`, `Console.perform` : everything that can be asked of a console.
* `Console.performAll` : requests one after the other.
-/

namespace Chip8

/-- A machine with its display and its speaker. -/
structure Console where
  machine : Machine
  /-- The speaker was told to play, and not to stop since. -/
  sounding : Bool := false

namespace Console

/-- What a request to a console leaves behind. -/
structure Reply (α : Type) where
  /-- The answer. -/
  result : α
  console : Console
  /-- What the display and the speaker were told. -/
  signals : List Signal := []
  /-- What was logged. -/
  log : Log := []

variable (c : Console)

/-- The console with another state of its machine. -/
def withMachine (m : Machine) : Console := { c with machine := m }

/-- Tells the speaker to start or to stop when the sound timer asks for a change. -/
def updateAudio : Console × List Signal :=
  let sounding := c.machine.timers.sounding
  if sounding = c.sounding then (c, [])
  else ({ c with sounding }, [if sounding then .startSound else .stopSound])

/-- The end of a tick: the speaker is told, the timers move, and the speaker is told again. -/
def finishTick : Console × List Signal :=
  let (c, before) := c.updateAudio
  let (c, after) := (c.withMachine c.machine.tickTimers).updateAudio
  (c, before ++ after)

/-- Steps `n` times, or until the first error, and counts on from `s`. The display is told what
each step did before the next one. -/
def steps : Nat → Console → Summary → Reply (Except Error Summary)
  | 0, c, s => { result := .ok s, console := c }
  | n + 1, c, s =>
    let reply := c.machine.step
    let stepped := c.withMachine reply.machine
    match reply.result with
    | .error e => { result := .error e, console := stepped, log := reply.log }
    | .ok effect =>
      let rest := steps n stepped (s.record effect)
      { rest with
        signals := effect.signals reply.machine.screen ++ rest.signals
        log := reply.log ++ rest.log }

/-- One tick with the given keys and `n` instructions. -/
def tick (keys : Keypad) (n : Nat) : Reply (Except Error Summary) :=
  let stepped := steps n (c.withMachine (c.machine.setKeypad keys)) {}
  match stepped.result with
  | .error _ => stepped
  | .ok _ =>
    let (console, audio) := stepped.console.finishTick
    { stepped with console, signals := stepped.signals ++ audio }

/-- One tick with as many instructions as are configured. -/
def frame (keys : Keypad) : Reply (Except Error Summary) :=
  c.tick keys c.machine.config.instructionsPerTick

/-- Back to the start of the program; the display turns dark and the tone ends. -/
def reset : Reply Unit :=
  let (machine, log) := c.machine.reset
  let (console, audio) := (c.withMachine machine).updateAudio
  ⟨(), console, .clearDisplay :: audio, log⟩

/-! ### Commands -/

/-- What can be asked of a console. -/
inductive Command where
  /-- One tick with a number of instructions. -/
  | tick (keys : Keypad) (n : Nat)
  /-- One tick as it is configured. -/
  | frame (keys : Keypad)
  /-- Back to the start. -/
  | reset
  /-- A request to the machine alone, of which display and speaker learn nothing. -/
  | machine (command : Machine.Command)

/-- The answer to a request that did not fail. -/
inductive Answer where
  | done
  | ticked (summary : Summary)
  | effect (effect : Effect)
  deriving DecidableEq, Repr

/-- Does what is asked. -/
def perform : Command → Reply (Except Error Answer)
  | .tick keys n =>
    let reply := c.tick keys n
    { reply with result := reply.result.map .ticked }
  | .frame keys =>
    let reply := c.frame keys
    { reply with result := reply.result.map .ticked }
  | .reset => { c.reset with result := .ok .done }
  | .machine command =>
    let reply := c.machine.perform command
    { result := reply.result.map .effect
      console := c.withMachine reply.machine
      log := reply.log }

/-- Does what is asked, one request after the other; errors do not end the requests. -/
def performAll (c : Console) : List Command → Reply (List (Except Error Answer))
  | [] => { result := [], console := c }
  | command :: commands =>
    let reply := c.perform command
    let rest := performAll reply.console commands
    { rest with
      result := reply.result :: rest.result
      signals := reply.signals ++ rest.signals
      log := reply.log ++ rest.log }

end Console

end Chip8
