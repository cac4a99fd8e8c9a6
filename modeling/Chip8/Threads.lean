import Chip8.Session
import Chip8.SharedKeypads

/-!
# A worker among other threads

A worker ticks a console at an interval. In each tick it copies the keys of a shared keypad, under
the lock of the keypad, and then lets the console tick, under the lock of the console. Meanwhile
other threads write to the keypad, take snapshots of their own, and ask the console for something
while they have taken its lock.

* `Threads.Phase` : how far the worker is in a tick.
* `Threads.Note` : what the threads have done, as others can tell.
* `Threads` : the shared keypads, the console and the worker.
* `Threads.work` : the worker does the next thing.
* `Threads.Event`, `Threads.perform`, `Threads.performAll` : what all threads do, in any order.
-/

namespace Chip8

namespace Threads

/-- How far the worker is in a tick. -/
inductive Phase where
  /-- It is between two ticks. -/
  | resting
  /-- It copies the keys. -/
  | copying
  /-- It has its copy and waits for the console. -/
  | ready (keys : Keypad)
  /-- It has taken the lock of the console. So many steps are `left`; the others have told the
  devices and logged what is here. -/
  | ticking (left : Nat) (summary : Summary) (signals : List Signal) (log : Log)

/-- What a thread has done. -/
inductive Note where
  /-- An access to a shared keypad has come to its end. -/
  | keypad (handle : Nat) (outcome : KeyOutcome)
  /-- The worker has the lock of the console, and has found the console like this. -/
  | locked (console : Console)
  /-- The worker lets go of the console after a tick. -/
  | fired (console : Console) (signals : List Signal) (log : Log)

/-- The handle of the worker; no other thread has it. -/
def own : Nat := 0

/-- The worker has its copy once its access has come to an end. -/
def Phase.receive (phase : Phase) : Option (Nat × KeyOutcome) → Phase
  | some (handle, .took keys) => if handle = own then .ready keys else phase
  | _ => phase

end Threads

/-- The shared keypads, a console behind a lock, and the worker that ticks it. -/
structure Threads (l : Lock) where
  keypads : SharedKeypads l
  console : Console
  /-- The lock of the console. -/
  lock : l.State := l.new
  /-- How far the worker is. -/
  phase : Threads.Phase := .resting
  /-- So many other threads have taken the lock of the console. -/
  visitors : Nat := 0

namespace Threads

variable {l : Lock}

/-- Before the first tick: one keypad, with the worker's handle and the handle it is a clone of. -/
def start (l : Lock) (console : Console) : Threads l where
  keypads := { handles := [own, own] }
  console := console

variable (t : Threads l)

/-- The worker does the next thing, or waits for a lock. -/
def work : Threads l × Option Note :=
  match t.phase with
  | .resting =>
    match t.keypads.enter own .snapshot with
    | some keypads => ({ t with keypads, phase := .copying }, none)
    | none => (t, none)
  -- while it copies, it goes on when its keypad does
  | .copying => (t, none)
  | .ready keys =>
    match l.take t.lock with
    | none => (t, none)
    | some lock =>
      let machine := t.console.machine
      ({ t with
          console := t.console.withMachine (machine.setKeypad keys)
          lock
          phase := .ticking machine.config.instructionsPerTick {} [] [] },
        some (.locked t.console))
  | .ticking 0 summary signals log =>
    let (console, audio) := t.console.finishTick
    ({ t with console, lock := l.release t.lock, phase := .resting },
      some (.fired console (signals ++ audio) (log ++ Session.report (.ok summary))))
  | .ticking (left + 1) summary signals log =>
    let reply := t.console.machine.step
    let console := t.console.withMachine reply.machine
    match reply.result with
    | .error e =>
      ({ t with console, lock := l.release t.lock, phase := .resting },
        some (.fired console signals
          (log ++ reply.log ++ Session.report (.error e : Except Error Summary))))
    | .ok effect =>
      ({ t with
          console
          phase := .ticking left (summary.record effect)
            (signals ++ effect.signals reply.machine.screen) (log ++ reply.log) },
        none)

/-! ### Events -/

/-- What can happen next. -/
inductive Event where
  /-- A thread does something to the shared keypads. -/
  | keypads (event : SharedKeypads.Event)
  /-- The worker does the next thing. -/
  | work
  /-- Another thread takes the lock of the console, or waits for it. -/
  | visit
  /-- A thread that has taken the lock asks the console for something. -/
  | console (command : Console.Command)
  /-- A thread that has taken the lock of the console lets go of it. -/
  | leave

/-- Lets something happen. -/
def perform : Event → Threads l × Option Note
  | .keypads event =>
    if event.enters own then (t, none)
    else
      let (keypads, outcome) := t.keypads.perform event
      ({ t with keypads, phase := t.phase.receive outcome },
        outcome.map fun (handle, outcome) => .keypad handle outcome)
  | .work => t.work
  | .visit =>
    match l.take t.lock with
    | none => (t, none)
    | some lock => ({ t with lock, visitors := t.visitors + 1 }, none)
  | .console command =>
    if t.visitors = 0 then (t, none)
    else ({ t with console := (t.console.perform command).console }, none)
  | .leave =>
    match t.visitors with
    | 0 => (t, none)
    | visitors + 1 => ({ t with lock := l.release t.lock, visitors }, none)

/-- Lets things happen, one after the other, and notes what has been done. -/
def performAll (t : Threads l) : List Event → Threads l × List Note
  | [] => (t, [])
  | event :: events =>
    let (next, note) := t.perform event
    let (last, notes) := next.performAll events
    (last, note.toList ++ notes)

end Threads

end Chip8
