import Chip8.Random.Xoshiro

/-!
# Random bytes

The machine asks for one random byte at a time.

* `Generator` : the seeded generator, or any fixed sequence of bytes and how many were drawn.
* `Generator.ofEnvironment` : the bytes that come from outside.
* `Generator.cycle`, `Generator.counter` : two sequences that are known.
* `Generator.next` : the next byte.
-/

namespace Chip8

/-- A source of random bytes. -/
inductive Generator where
  /-- The seeded generator in some state. -/
  | seeded (state : Xoshiro)
  /-- The sequence `byte`, of which the first `drawn` bytes were handed out. -/
  | stream (byte : Nat → Byte) (drawn : Nat)

namespace Generator

/-- The generator for a seed. -/
def ofSeed (seed : BitVec 64) : Generator := seeded (.ofSeed seed)

/-- The given bytes in order, over and over. -/
def cycle (bytes : Array Byte) : Generator := stream (fun k => bytes.getD (k % bytes.size) 0) 0

/-- The low bytes of the numbers that start with `first` and grow by `step`. -/
def counter (first step : Nat) : Generator := stream (fun k => .ofNat 8 (first + k * step)) 0

/-- The bytes that the environment will provide, in order. -/
def ofEnvironment (byte : Nat → Byte) : Generator := stream byte 0

/-- Nothing but zeros. -/
def zeros : Generator := ofEnvironment fun _ => 0

/-- The next byte, and the source behind it. -/
def next : Generator → Byte × Generator
  | seeded state => let (b, state) := state.nextByte; (b, seeded state)
  | stream byte drawn => (byte drawn, stream byte (drawn + 1))

/-- The source after `n` bytes. -/
def after : Nat → Generator → Generator
  | 0, g => g
  | n + 1, g => after n g.next.2

end Generator

end Chip8
