import Chip8.Console

/-!
# Sessions

A session ticks a console sixty times a second with the keys of a keypad that others write to.

* `Session.write` : a write to the shared keys; one without a key changes nothing.
* `Session.fire` : one tick with the keys as they are at its start. An error is logged, except that
  of a machine that has halted before.
* `Session.stop` : no more ticks.
* `Session.Event`, `Session.perform`, `Session.performAll` : ticks, writes to the keys and requests
  to the console, in any order.
-/

namespace Chip8

/-- A console that is ticked at an interval. -/
structure Session where
  console : Console
  /-- The keys that others write to. -/
  keys : Keypad := .released
  /-- The ticks go on. -/
  active : Bool := true

namespace Session

/-- The milliseconds between two ticks. -/
def interval : Nat := Timers.interval

/-- What a tick leaves behind. -/
structure Reply where
  session : Session
  /-- What the display and the speaker were told. -/
  signals : List Signal := []
  /-- What was logged. -/
  log : Log := []

variable (s : Session)

/-- The session after a write to its keys, if the write names a key. -/
def write (w : KeyWrite) : Option Session :=
  (s.keys.write w).map fun keys => { s with keys }

/-- The log of a tick that ended in `result`. -/
def report {α : Type} (result : Except Error α) : Log :=
  match result with
  | .ok _ | .error .halted => []
  | .error e => [.stopped e]

/-- One tick; a stopped session does nothing. -/
def fire : Reply :=
  if s.active then
    let reply := s.console.frame s.keys
    { session := { s with console := reply.console }
      signals := reply.signals
      log := reply.log ++ report reply.result }
  else { session := s }

/-- A number of ticks. -/
def fires : Nat → Session → Reply
  | 0, s => { session := s }
  | n + 1, s =>
    let reply := s.fire
    let rest := fires n reply.session
    { rest with signals := reply.signals ++ rest.signals, log := reply.log ++ rest.log }

/-- Ends the ticks. -/
def stop : Session := { s with active := false }

/-! ### Events -/

/-- What can happen to a session while its ticks go on. -/
inductive Event where
  /-- One tick. -/
  | fire
  /-- A write to the shared keys. -/
  | write (w : KeyWrite)
  /-- A request to the shared console. -/
  | console (command : Console.Command)

/-- Lets an event happen. A write that names no key leaves the session as it is. -/
def perform : Event → Reply
  | .fire => s.fire
  | .write w => { session := (s.write w).getD s }
  | .console command =>
    let reply := s.console.perform command
    { session := { s with console := reply.console }
      signals := reply.signals
      log := reply.log }

/-- Lets events happen, one after the other. -/
def performAll (s : Session) : List Event → Reply
  | [] => { session := s }
  | event :: events =>
    let reply := s.perform event
    let rest := performAll reply.session events
    { rest with signals := reply.signals ++ rest.signals, log := reply.log ++ rest.log }

end Session

end Chip8
