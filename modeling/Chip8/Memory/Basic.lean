import Chip8.Fault
import Chip8.Memory.Font

/-!
# Memory

The 4096 cells of a machine. An access outside of them is refused with the first address that does
not exist, and a refused write changes no cell.

* `Memory.initial` : zeros behind the font.
* `Memory.cell` : the view of memory as a function of the address.
* `Memory.read`, `Memory.write` : one cell.
* `Memory.fetch` : the big-endian word at an address, by `Word.read`.
* `Memory.slice`, `Memory.replace` : a block of cells, checked as a whole.
* `Memory.load` : a program at `Memory.origin`.
* `Memory.getElem?_blit` : what a block of writes leaves in each cell.
* `Memory.fetch_of_load` : a program lies where it was loaded.
-/

namespace Chip8

/-- The big-endian word at position `p` of `cells`. -/
def Word.read (cells : Array Byte) (p : Nat) : Except MemoryError Word :=
  if h : p + 1 < cells.size then .ok (ofBytes cells[p] cells[p + 1])
  else .error (.outOfBounds (max p cells.size))

/-- The memory of a machine. -/
structure Memory where
  /-- The cells, by address. -/
  cells : Vector Byte Memory.size
  deriving DecidableEq

namespace Memory

/-- Writes `bs` from address `a` on; what would lie outside is dropped. -/
def blit (m : Memory) (a : Nat) : List Byte → Memory
  | [] => m
  | b :: bs => blit ⟨m.cells.setIfInBounds a b⟩ (a + 1) bs

/-- Memory before a program is loaded. -/
def initial : Memory := blit ⟨.replicate size 0⟩ Font.location Font.bytes

variable (m : Memory)

/-- The cell at address `a`, zero outside of memory. -/
def cell (a : Nat) : Byte := m.cells[a]?.getD 0

/-- The byte at address `a`. -/
def read (a : Nat) : Except MemoryError Byte :=
  if h : a < size then .ok m.cells[a] else .error (.outOfBounds a)

/-- Writes `b` at address `a`. -/
def write (a : Nat) (b : Byte) : Except MemoryError Memory :=
  if h : a < size then .ok ⟨m.cells.set a b⟩ else .error (.outOfBounds a)

/-- The word at address `p`. -/
def fetch (p : Nat) : Except MemoryError Word := Word.read m.cells.toArray p

/-- The `n` bytes from address `a` on. -/
def slice (a n : Nat) : Except MemoryError (List Byte) :=
  if h : a + n ≤ size then .ok (.ofFn fun i : Fin n => m.cells[a + i])
  else .error (.outOfBounds (max a size))

/-- Writes `bs` from address `a` on, all of it or nothing. -/
def replace (a : Nat) (bs : List Byte) : Except MemoryError Memory :=
  if a + bs.length ≤ size then .ok (m.blit a bs)
  else .error (.outOfBounds (max a size))

/-- Writes the program `bs` at `Memory.origin`. -/
def load (bs : List Byte) : Except RomError Memory :=
  if bs = [] then .error .empty
  else if capacity < bs.length then .error (.tooLarge bs.length capacity)
  else .ok (m.blit origin bs)

theorem getElem_cells {a : Nat} (ha : a < size) : m.cells[a] = m.cell a := by
  simp [cell, ha]

theorem fetch_eq (p : Nat) :
    m.fetch p =
      if h : p + 1 < size then .ok (.ofBytes m.cells[p] m.cells[p + 1])
      else .error (.outOfBounds (max p size)) := by
  simp [fetch, Word.read]

/-! ### Blocks of writes -/

variable {m}

theorem getElem?_blit (a : Nat) (bs : List Byte) (i : Nat) :
    (m.blit a bs).cells[i]? =
      if a ≤ i ∧ i < a + bs.length ∧ i < size then bs[i - a]? else m.cells[i]? := by
  induction bs generalizing m a with
  | nil => simp [blit]; omega
  | cons b bs ih =>
    rw [blit, ih, List.length_cons]
    rcases Nat.lt_trichotomy a i with h | rfl | h
    · obtain ⟨k, rfl⟩ : ∃ k, i = a + 1 + k := ⟨i - (a + 1), by omega⟩
      rw [Vector.getElem?_setIfInBounds_ne (by omega), show a + 1 + k - (a + 1) = k by omega,
        show a + 1 + k - a = k + 1 by omega, List.getElem?_cons_succ]
      congr 1
      simp only [eq_iff_iff]
      omega
    · rw [if_neg (by omega), Nat.sub_self, List.getElem?_cons_zero]
      by_cases hs : a < size
      · rw [if_pos ⟨Nat.le_refl a, by omega, hs⟩, Vector.getElem?_setIfInBounds_self_of_lt hs]
      · rw [if_neg (by omega), Vector.getElem?_eq_none (by omega),
          Vector.getElem?_eq_none (by omega)]
    · rw [if_neg (by omega), if_neg (by omega), Vector.getElem?_setIfInBounds_ne (by omega)]

/-- An accepted program fits behind `origin`. -/
theorem blit_of_load {bs : List Byte} {loaded : Memory} (h : m.load bs = .ok loaded) :
    origin + bs.length < size ∧ loaded = m.blit origin bs := by
  unfold load at h
  split at h
  · cases h
  · split at h
    · cases h
    · rename_i hcap
      refine ⟨?_, (Except.ok.inj h).symm⟩
      simp only [capacity, origin, last, size] at *
      omega

theorem fetch_of_load {bs : List Byte} {loaded : Memory} (h : m.load bs = .ok loaded) {k : Nat}
    (hk : k + 1 < bs.length) : loaded.fetch (origin + k) = .ok (.ofBytes bs[k] bs[k + 1]) := by
  obtain ⟨hsize, hl⟩ := blit_of_load h
  have hget : ∀ i (hi : i < bs.length), loaded.cells[origin + i]? = some bs[i] := by
    intro i hi
    rw [hl, getElem?_blit, if_pos (by omega), Nat.add_sub_cancel_left,
      List.getElem?_eq_getElem hi]
  obtain ⟨_, h₀⟩ := Vector.getElem?_eq_some_iff.1 (hget k (by omega))
  obtain ⟨_, h₁⟩ := Vector.getElem?_eq_some_iff.1 (hget (k + 1) hk)
  rw [fetch_eq, dif_pos (by omega), h₀]
  simp only [Nat.add_assoc, h₁]

end Memory

end Chip8
