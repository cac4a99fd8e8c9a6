import Chip8.Log

/-!
# Tickers

A ticker calls back at an interval on a thread of its own until it is stopped. A callback that fails
ends its thread; the failure is logged when the ticker is stopped, once.

* `Ticker` : what has become of the thread.
* `Ticker.start` : stops, then starts a new thread and lets it run for a number of calls.
* `Ticker.stop` : ends the thread.
* `Ticker.alive` : the thread goes on.
-/

namespace Chip8

/-- The state of a ticker. -/
inductive Ticker where
  /-- There is no thread. -/
  | idle
  /-- The thread calls back. -/
  | running
  /-- The callback failed, and nobody has noticed yet. -/
  | failed
  deriving DecidableEq, Repr

/-- What a callback does in its counted calls. -/
structure Callback where
  /-- The number of calls that it counts. -/
  calls : Nat
  /-- It fails in the last of them. -/
  fails : Bool
  deriving DecidableEq, Repr

namespace Ticker

/-- The thread goes on. -/
def alive : Ticker → Bool
  | running => true
  | idle | failed => false

/-- Ends the thread, with what is logged. -/
def stop : Ticker → Ticker × Log
  | failed => (idle, [.tickerFailed])
  | idle | running => (idle, [])

/-- Starts a callback and waits until it has counted its calls. -/
def start (t : Ticker) (f : Callback) : Ticker × Log :=
  (if f.fails && f.calls != 0 then failed else running, t.stop.2)

end Ticker

end Chip8
