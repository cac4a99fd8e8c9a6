import Chip8.Machine.Step
import Chip8.Signal

/-!
# Runs

* `Machine.run` : a number of steps, up to the first error.
* `Run.summary` : how many steps there were of each kind.
* `Summary.record` : one more step.
* `Machine.Command`, `Machine.perform` : everything that can be asked of a machine.
* `Machine.performAll` : requests one after the other.
-/

namespace Chip8

/-- What happened during a number of steps. -/
structure Run where
  /-- The effects of the steps before an error. -/
  effects : List Effect := []
  /-- What the display was told. -/
  signals : List Signal := []
  /-- The error that ended the run. -/
  error : Option Error := none
  /-- The machine afterwards. -/
  machine : Machine
  /-- What was logged. -/
  log : Log := []

/-- How many steps of a kind there were. -/
structure Summary where
  /-- The steps without an error. -/
  executed : Nat := 0
  /-- The steps that cleared the screen or drew to it. -/
  draws : Nat := 0
  /-- The steps that were passed over. -/
  ignored : Nat := 0
  deriving DecidableEq, Repr

/-- The counts after one more step with the given effect. -/
def Summary.record (s : Summary) : Effect → Summary
  | .none => { s with executed := s.executed + 1 }
  | .cleared | .drawn => { s with executed := s.executed + 1, draws := s.draws + 1 }
  | .unsupported _ | .ignored _ =>
    { s with executed := s.executed + 1, ignored := s.ignored + 1 }

namespace Run

/-- The number of steps with the given effect. -/
def count (r : Run) (e : Effect) : Nat := r.effects.count e

/-- The number of steps that were passed over. -/
def ignored (r : Run) : Nat := r.effects.countP (·.error?.isSome)

/-- The counts of the run. -/
def summary (r : Run) : Summary where
  executed := r.effects.length
  draws := r.count .cleared + r.count .drawn
  ignored := r.ignored

end Run

namespace Machine

/-- Steps `n` times, or until the first error. -/
def run : Nat → Machine → Run
  | 0, m => { machine := m }
  | n + 1, m =>
    let reply := m.step
    match reply.result with
    | .error e => { error := some e, machine := reply.machine, log := reply.log }
    | .ok effect =>
      let rest := run n reply.machine
      { rest with
        effects := effect :: rest.effects
        signals := effect.signals reply.machine.screen ++ rest.signals
        log := reply.log ++ rest.log }

/-! ### Commands -/

/-- What can be asked of a machine. -/
inductive Command where
  | step
  | setKeypad (keys : Keypad)
  | tickTimers
  | setGenerator (g : Generator)
  | reset
  | load (rom : Rom)

/-- Does what is asked. Only a step has an effect to tell. -/
def perform (m : Machine) : Command → Reply (Except Error Effect)
  | .step => m.step
  | .setKeypad keys => { result := .ok .none, machine := m.setKeypad keys }
  | .tickTimers => { result := .ok .none, machine := m.tickTimers }
  | .setGenerator g => { result := .ok .none, machine := m.setGenerator g }
  | .reset => { result := .ok .none, machine := m.reset.1, log := m.reset.2 }
  | .load rom =>
    let reply := m.load rom
    { reply with result := reply.result.map fun _ => .none }

/-- Does what is asked, one request after the other; errors do not end the requests. -/
def performAll (m : Machine) : List Command → Reply (List (Except Error Effect))
  | [] => { result := [], machine := m }
  | command :: commands =>
    let reply := m.perform command
    let rest := performAll reply.machine commands
    { rest with result := reply.result :: rest.result, log := reply.log ++ rest.log }

end Machine

end Chip8
