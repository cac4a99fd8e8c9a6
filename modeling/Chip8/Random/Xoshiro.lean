import Chip8.Word

/-!
# The seeded generator

The generator xoshiro256++ on four 64 bit words, whose first state a permuted congruential generator
with 32 bit outputs expands from a seed.

* `Xoshiro.ofSeed` : the state for a seed.
* `Xoshiro.next` : the next 64 bit output.
* `Xoshiro.nextByte` : the next single byte, taken from an output of its own.
* `Xoshiro.fill` : the next bytes of a buffer, eight to an output; `Xoshiro.fill_one` says that a
  buffer of one byte gets the next byte.
-/

namespace Chip8

/-- The state of the generator. -/
structure Xoshiro where
  a : BitVec 64
  b : BitVec 64
  c : BitVec 64
  d : BitVec 64
  deriving DecidableEq, Repr

namespace Xoshiro

/-! ### Seeding -/

/-- One step of the congruential generator. -/
def congruential (s : BitVec 64) : BitVec 64 := s * 6364136223846793005 + 11634580027462260723

/-- The permuted output for a state of the congruential generator: a xorshift, then a rotation by
the five highest bits. -/
def permute (s : BitVec 64) : BitVec 32 :=
  ((((s >>> 18) ^^^ s) >>> 27).setWidth 32).rotateRight (s >>> 59).toNat

/-- A 64 bit word from two successive outputs, the first in the low half, and the state behind
them. -/
def seedWord (s : BitVec 64) : BitVec 64 × BitVec 64 :=
  let s₁ := congruential s
  let s₂ := congruential s₁
  (permute s₂ ++ permute s₁, s₂)

/-- The state for a seed. -/
def ofSeed (seed : BitVec 64) : Xoshiro :=
  let (a, s) := seedWord seed
  let (b, s) := seedWord s
  let (c, s) := seedWord s
  let (d, _) := seedWord s
  ⟨a, b, c, d⟩

/-! ### Output -/

/-- The next output and the state behind it. -/
def next (x : Xoshiro) : BitVec 64 × Xoshiro :=
  let c := x.c ^^^ x.a
  let d := x.d ^^^ x.b
  ((x.a + x.d).rotateLeft 23 + x.a,
    { a := x.a ^^^ d, b := x.b ^^^ c, c := c ^^^ (x.b <<< 17), d := d.rotateLeft 45 })

/-- The lowest `n` bytes of an output, the lowest first. -/
def bytesOf (w : BitVec 64) (n : Nat) : List Byte :=
  (List.range n).map fun i => w.extractLsb' (8 * i) 8

/-- The next `n` bytes for a part of a buffer that one output fills. Up to four bytes come from the
high half of the output, more from the whole. -/
def part (x : Xoshiro) (n : Nat) : List Byte × Xoshiro :=
  let (w, y) := x.next
  (bytesOf (if 4 < n then w else w >>> 32) n, y)

/-- The next byte. -/
def nextByte (x : Xoshiro) : Byte × Xoshiro :=
  let (w, y) := x.next
  (w.extractLsb' 32 8, y)

/-- The bytes for a buffer of length `n`. -/
def fill (x : Xoshiro) (n : Nat) : List Byte × Xoshiro :=
  if n = 0 then ([], x)
  else
    let (bytes, y) := x.part (min n 8)
    let (rest, z) := fill y (n - 8)
    (bytes ++ rest, z)
termination_by n

/-- A buffer of one byte gets the next byte. -/
theorem fill_one (x : Xoshiro) : x.fill 1 = ([x.nextByte.1], x.nextByte.2) := by
  have hlow (w : BitVec 64) : (w >>> 32).extractLsb' 0 8 = w.extractLsb' 32 8 := by
    apply BitVec.eq_of_getLsbD_eq
    intro i h
    simp only [BitVec.getLsbD_extractLsb', BitVec.getLsbD_ushiftRight, Nat.zero_add]
  have hnone (y : Xoshiro) : y.fill 0 = ([], y) := by rw [fill, if_pos rfl]
  rw [fill, if_neg Nat.one_ne_zero]
  simp only [part, nextByte, bytesOf, Nat.reduceSub, Nat.reduceLeDiff, Nat.min_eq_left,
    Nat.reduceLT, if_false, List.range_one, List.map_singleton, Nat.mul_zero, hlow, hnone,
    List.append_nil]

end Xoshiro

end Chip8
