import Chip8.CallStack
import Chip8.Memory.Basic
import Chip8.Screen.Sprite

/-!
# Bare arrays and numbers

The parts of a machine as plain arrays and plain numbers, about which nothing is known beforehand:
an array may have any length, and any number may be used as an index into it. Whatever an array or
a number of bits does not allow is a panic, which ends all work at once.

* `Bare.Panic` : what ends the work.
* `Bare.entry`, `Bare.putEntry`, `Bare.part`, `Bare.within`, `Bare.copy` : indices and ranges.
* `Bare.add`, `Bare.shiftRight` : arithmetic that does not wrap around.
* `Bare.fetch`, `Bare.stop`, `Bare.initialCells`, `Bare.loadCells` : memory.
* `Bare.push`, `Bare.pop` : the call stack.
* `Bare.clear`, `Bare.drawRows` : the screen, and the drawing of a sprite bit by bit.
-/

namespace Chip8

namespace Bare

/-- What ends the work of a bare machine at once. -/
inductive Panic where
  /-- An array of `size` entries has no entry `i`. -/
  | index (i size : Nat)
  /-- A range begins behind its end. -/
  | order (start stop : Nat)
  /-- A range ends behind the last entry of an array of `size` entries. -/
  | range (stop size : Nat)
  /-- A block of `target` entries is overwritten by one of `source` entries. -/
  | lengths (target source : Nat)
  /-- A sum of numbers of `width` bits does not fit into them, or a number is shifted by as many
  bits or more. -/
  | overflow (width : Nat)
  deriving DecidableEq, Repr

/-! ### Arrays -/

section Arrays

variable {α : Type}

/-- The entry at index `i`. -/
def entry (xs : List α) (i : Nat) : Except Panic α :=
  if h : i < xs.length then .ok xs[i] else .error (.index i xs.length)

/-- The array with `x` at index `i`. -/
def putEntry (xs : List α) (i : Nat) (x : α) : Except Panic (List α) :=
  if i < xs.length then .ok (xs.set i x) else .error (.index i xs.length)

/-- The entries from `start` up to `stop`, without the latter. -/
def part (xs : List α) (start stop : Nat) : Except Panic (List α) :=
  if stop < start then .error (.order start stop)
  else if xs.length < stop then .error (.range stop xs.length)
  else .ok ((xs.take stop).drop start)

/-- The array after `f` has changed the entries from `start` up to `stop`. -/
def within (xs : List α) (start stop : Nat) (f : List α → Except Panic (List α)) :
    Except Panic (List α) := do
  let block ← part xs start stop
  let changed ← f block
  return xs.take start ++ changed ++ xs.drop stop

/-- The block `target` after `source` was copied over it. -/
def copy (source target : List α) : Except Panic (List α) :=
  if target.length = source.length then .ok source
  else .error (.lengths target.length source.length)

end Arrays

/-! ### Numbers -/

section Numbers

variable {width : Nat}

/-- A sum that has to fit. -/
def add (a b : BitVec width) : Except Panic (BitVec width) :=
  if a.uaddOverflow b then .error (.overflow width) else .ok (a + b)

/-- A shift by fewer bits than there are. -/
def shiftRight (a : BitVec width) (k : Nat) : Except Panic (BitVec width) :=
  if k < width then .ok (a >>> k) else .error (.overflow width)

end Numbers

/-! ### Memory -/

/-- The big-endian word at position `p`. -/
def fetch (cells : List Byte) (p : Nat) : Except Panic (Except MemoryError Word) :=
  if p + 1 < cells.length then do
    let hi ← entry cells p
    let lo ← entry cells (p + 1)
    return .ok (Word.ofBytes hi lo)
  else return .error (.outOfBounds (max p cells.length))

/-- The end of the block of `n` cells at address `a`, if the addresses reach that far. -/
def stop (a n : Nat) : Except MemoryError Nat :=
  if Memory.size < a + n then .error (.outOfBounds (max a Memory.size)) else .ok (a + n)

/-- Memory before a program is loaded. -/
def initialCells : Except Panic (List Byte) :=
  within (.replicate Memory.size 0) Font.location (Font.location + Font.bytes.length)
    (copy Font.bytes)

/-- Memory with the program `data`. -/
def loadCells (cells data : List Byte) : Except Panic (Except RomError (List Byte)) :=
  if data = [] then return .error .empty
  else if Memory.capacity < data.length then
    return .error (.tooLarge data.length Memory.capacity)
  else do
    let loaded ← within cells Memory.origin (Memory.origin + data.length) (copy data)
    return .ok loaded

/-! ### The call stack -/

/-- The stack with one more return address. -/
def push (stack : List Nat) (address : Nat) : Except StackError (List Nat) :=
  if stack.length < CallStack.capacity then .ok (address :: stack) else .error .overflow

/-- The newest return address, and the stack without it. -/
def pop : List Nat → Except StackError (Nat × List Nat)
  | [] => .error .underflow
  | address :: rest => .ok (address, rest)

/-! ### The screen -/

/-- A screen, row by row, while something is drawn. -/
structure Drawing where
  /-- The pixels, row by row. -/
  rows : List (List Bool)
  /-- A pixel that was on has been drawn over. -/
  collision : Bool := false

/-- The screen with all pixels off. -/
def clear (rows : List (List Bool)) : List (List Bool) := rows.map (·.map fun _ => false)

/-- Turns over the pixel at column `px` and row `py`, and notes whether it was on. -/
def Drawing.turn (d : Drawing) (px py : Nat) : Except Panic Drawing := do
  let row ← entry d.rows py
  let lit ← entry row px
  let turned ← putEntry row px (!lit)
  let rows ← putEntry d.rows py turned
  return { rows, collision := d.collision || lit }

/-- Draws bit `c` of a row of a sprite, with the row's left end at column `x` of row `py`. -/
def drawBit (x py : Nat) (bits : Byte) (d : Drawing) (c : Nat) : Except Panic Drawing := do
  let mask ← shiftRight (0x80 : Byte) c
  if bits &&& mask = 0 then return d
  else d.turn ((x + c) % Screen.width) py

/-- Draws a row of a sprite, with its left end at column `x` of row `py`. -/
def drawRow (x py : Nat) (bits : Byte) (d : Drawing) : Except Panic Drawing :=
  (List.range Sprite.width).foldlM (drawBit x py bits) d

/-- Draws a sprite from its row `r` on, with its upper left corner at column `x` and row `y`. -/
def drawRows (x y : Nat) : Nat → List Byte → Drawing → Except Panic Drawing
  | _, [], d => return d
  | r, bits :: sprite, d => do
    let drawn ← drawRow x ((y + r) % Screen.height) bits d
    drawRows x y (r + 1) sprite drawn

end Bare

end Chip8
