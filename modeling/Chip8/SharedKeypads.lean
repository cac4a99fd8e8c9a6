import Chip8.Keypad
import Chip8.Lock

/-!
# Shared keypads

Keypads that several threads use, each behind a lock of its own. A thread has handles; clones of a
handle share one keypad. A thread that has taken the lock goes through the keys one at a time: a
write stores its keys, and a snapshot copies all of them, while other threads do what they like,
to the same keypad too if its lock lets them. A write that names no key has nothing to store; its
thread panics.

* `KeyWrite.cells` : the keys that a write stores, in order.
* `KeyRequest`, `KeyAccess`, `KeyOutcome` : what a thread wants of a keypad, how far it is, and what
  it has done when it lets go of the lock.
* `SharedKeypad`, `SharedKeypad.enter`, `SharedKeypad.proceed` : a keypad with its lock.
* `SharedKeypads`, `SharedKeypads.Event`, `SharedKeypads.perform` : all keypads, and what threads do
  to them, in any order.
-/

namespace Chip8

/-- The keys that a write stores, in order; `none` if it names no key. -/
def KeyWrite.cells : KeyWrite → Option (List (Key × Bool))
  | .set key pressed => (Key.ofNat? key).map fun k => [(k, pressed)]
  | .setAll keys => some ((List.finRange Key.count).map fun k => (k, keys.get k))

/-- What a thread can want of a shared keypad. -/
inductive KeyRequest where
  /-- To write to it. -/
  | write (w : KeyWrite)
  /-- A copy of it. -/
  | snapshot

/-- What a thread that has taken the lock is at. -/
inductive KeyAccess where
  /-- It writes, and these keys are still to be stored. -/
  | write (w : KeyWrite) (todo : List (Key × Bool))
  /-- Its write names no key, and it panics. -/
  | panic (w : KeyWrite)
  /-- It has copied some keys, and these are still to be copied. -/
  | snapshot (copy : Keypad) (todo : List Key)

/-- What a thread has done when it lets go of the lock. -/
inductive KeyOutcome where
  /-- It has written. -/
  | wrote (w : KeyWrite)
  /-- Its write was refused, with a panic. -/
  | panicked (w : KeyWrite)
  /-- It has a copy of the keys. -/
  | took (keys : Keypad)

/-- How an access begins. -/
def KeyRequest.start : KeyRequest → KeyAccess
  | .write w =>
    match w.cells with
    | some todo => .write w todo
    | none => .panic w
  | .snapshot => .snapshot .released (List.finRange Key.count)

/-- The keys after the next thing that an access does, and how it goes on or ends. -/
def KeyAccess.advance (keys : Keypad) : KeyAccess → Keypad × (KeyAccess ⊕ KeyOutcome)
  | .write w [] => (keys, .inr (.wrote w))
  | .write w ((k, pressed) :: todo) => (keys.set k pressed, .inl (.write w todo))
  | .panic w => (keys, .inr (.panicked w))
  | .snapshot copy [] => (keys, .inr (.took copy))
  | .snapshot copy (k :: todo) => (keys, .inl (.snapshot (copy.set k (keys.get k)) todo))

/-- The lock once this has been done: whoever has panicked lets go of it as well. -/
def KeyOutcome.letGo (l : Lock) (lock : l.State) : KeyOutcome → l.State
  | .wrote _ | .took _ => l.release lock
  | .panicked _ => l.unwind lock

/-! ### One keypad -/

/-- A keypad behind a lock. -/
structure SharedKeypad (l : Lock) where
  keys : Keypad := .released
  /-- The lock. -/
  lock : l.State := l.new
  /-- The accesses under way, each with the handle that it goes through. -/
  accesses : List (Nat × KeyAccess) := []

variable {l : Lock}

namespace SharedKeypad

variable (p : SharedKeypad l)

/-- Takes the lock through a handle and begins an access; `none` if the thread has to wait. -/
def enter (handle : Nat) (request : KeyRequest) : Option (SharedKeypad l) :=
  (l.take p.lock).map fun lock =>
    { p with lock, accesses := p.accesses ++ [(handle, request.start)] }

/-- The thread of one of the accesses does the next thing. At the end of its access it lets go of
the lock. -/
def proceed (turn : Nat) : SharedKeypad l × Option (Nat × KeyOutcome) :=
  match p.accesses[turn]? with
  | none => (p, none)
  | some (handle, access) =>
    match access.advance p.keys with
    | (keys, .inl rest) => ({ p with keys, accesses := p.accesses.set turn (handle, rest) }, none)
    | (keys, .inr outcome) =>
      ({ keys, lock := outcome.letGo l p.lock, accesses := p.accesses.eraseIdx turn },
        some (handle, outcome))

end SharedKeypad

/-! ### All keypads -/

/-- The shared keypads and the handles to them. -/
structure SharedKeypads (l : Lock) where
  /-- The keypads; each has the number of its first handle. -/
  pads : Nat → SharedKeypad l := fun _ => {}
  /-- The keypad that each handle shares. -/
  handles : List Nat := []

namespace SharedKeypads

/-- What threads do to shared keypads. -/
inductive Event where
  /-- A new keypad. -/
  | create
  /-- A new handle that shares the keypad of another one. -/
  | clone (handle : Nat)
  /-- A thread takes the lock of a keypad, or waits for it. -/
  | enter (handle : Nat) (request : KeyRequest)
  /-- The thread of one of the accesses to a keypad does the next thing. -/
  | proceed (pad turn : Nat)

/-- The event takes a lock through this handle. -/
def Event.enters (own : Nat) : Event → Bool
  | .enter handle _ => handle = own
  | .create | .clone _ | .proceed .. => false

variable (s : SharedKeypads l)

/-- The keypads with another one in the place of keypad `i`. -/
def put (i : Nat) (p : SharedKeypad l) : SharedKeypads l :=
  { s with pads := fun j => if j = i then p else s.pads j }

/-- The keypads with one more handle. -/
def addHandle (i : Nat) : SharedKeypads l := { s with handles := s.handles ++ [i] }

/-- Takes the lock of a handle's keypad; `none` if the thread has to wait. -/
def enter (handle : Nat) (request : KeyRequest) : Option (SharedKeypads l) :=
  match s.handles[handle]? with
  | none => none
  | some i => ((s.pads i).enter handle request).map (s.put i)

/-- The thread of one of the accesses to keypad `i` does the next thing. -/
def proceed (i turn : Nat) : SharedKeypads l × Option (Nat × KeyOutcome) :=
  let (p, outcome) := (s.pads i).proceed turn
  (s.put i p, outcome)

/-- Lets a thread do something. -/
def perform : Event → SharedKeypads l × Option (Nat × KeyOutcome)
  | .create => (s.addHandle s.handles.length, none)
  | .clone handle =>
    match s.handles[handle]? with
    | some i => (s.addHandle i, none)
    | none => (s, none)
  | .enter handle request => ((s.enter handle request).getD s, none)
  | .proceed i turn => s.proceed i turn

end SharedKeypads

end Chip8
