import Chip8.Memory.Basic

/-!
# Accesses to memory

What a block of cells is checked for, and accesses as steps that change a memory. A refused write
changes nothing, but the writes before it stay; a block is written as a whole or not at all.

* `saturatingAdd`, `Memory.stop` : the end of a block, by an addition that does not overflow.
* `Byte.read` : one byte of any list of bytes, as `Word.read` is one word.
* `Memory.Access` : steps that change a memory and can be refused.
* `Memory.put`, `Memory.putEach`, `Memory.copy` : one write, writes one by one, and a block of them.
* `Memory.Access.atomically` : all of an access or nothing.
* `Memory.install` : a program, after the checks of its size.
-/

namespace Chip8

/-- Addition of numbers of 64 bits, up to the largest of them. -/
def saturatingAdd (a n : Nat) : Nat := min (a + n) 0xFFFFFFFFFFFFFFFF

/-- The byte at position `i` of `cells`. -/
def Byte.read (cells : Array Byte) (i : Nat) : Except MemoryError Byte :=
  match cells[i]? with
  | some b => .ok b
  | none => .error (.outOfBounds i)

namespace Memory

/-- The end of the block of `n` cells at the address `a`, or the first address of it that does not
exist. -/
def stop (a n : Nat) : Except MemoryError Nat :=
  let stop := saturatingAdd a n
  if size < stop then .error (.outOfBounds (max a size)) else .ok stop

/-- Steps that change a memory, whether they are refused in the end or not. -/
abbrev Access := EStateM MemoryError Memory

/-- Does all of an access, or nothing if it is refused in the end. -/
def Access.atomically {α : Type} (x : Access α) : Access α := fun m =>
  match x.run m with
  | .ok r n => .ok r n
  | .error e _ => .error e m

/-- Writes one byte. -/
def put (a : Nat) (b : Byte) : Access Unit := do
  let m ← get
  set (← MonadExcept.ofExcept (m.write a b))

/-- Writes bytes one by one, from the address `a` on. -/
def putEach (a : Nat) : List Byte → Access Unit
  | [] => pure ()
  | b :: bs => do
    put a b
    putEach (a + 1) bs

/-- Writes a block of bytes at the address `a`, after a check of the whole block. -/
def copy (a : Nat) (bs : List Byte) : Access Unit := do
  let _ ← MonadExcept.ofExcept (stop a bs.length)
  modify fun m => m.blit a bs

/-- Steps that load a program, which can be refused. -/
abbrev Loading := EStateM RomError Memory

/-- Writes a program at `origin`, after both checks of its size. -/
def install (bs : List Byte) : Loading Unit := do
  if bs = [] then throw .empty
  if capacity < bs.length then throw (.tooLarge bs.length capacity)
  modify fun m => m.blit origin bs

/-! ### What accesses leave behind -/

section Runs

variable {α : Type} {x : Access α} {m n : Memory} {a : Nat} {b : Byte} {bs : List Byte}
  {e : MemoryError}

@[simp] theorem Access.run_ofExcept_ok (r : α) :
    (MonadExcept.ofExcept (.ok r) : Access α).run m = .ok r m := rfl

@[simp] theorem Access.run_ofExcept_error :
    (MonadExcept.ofExcept (.error e) : Access α).run m = .error e m := rfl

@[simp] theorem Access.run_atomically_ok {r : α} (h : x.run m = .ok r n) :
    x.atomically.run m = .ok r n := by
  unfold atomically EStateM.run
  unfold EStateM.run at h
  simp only [h]

@[simp] theorem Access.run_atomically_error (h : x.run m = .error e n) :
    x.atomically.run m = .error e m := by
  unfold atomically EStateM.run
  unfold EStateM.run at h
  simp only [h]

theorem write_of_lt (ha : a < size) : m.write a b = .ok (m.blit a [b]) := by
  rw [write, dif_pos ha]
  simp [blit, Vector.set, Vector.setIfInBounds, Array.setIfInBounds, ha]

theorem run_put_of_lt (ha : a < size) : (put a b).run m = .ok () (m.blit a [b]) := by
  simp [put, EStateM.run_bind, write_of_lt ha]

theorem run_put_of_not_lt (ha : ¬a < size) : (put a b).run m = .error (.outOfBounds a) m := by
  have hwrite : m.write a b = .error (.outOfBounds a) := dif_neg ha
  simp [put, EStateM.run_bind, hwrite]

theorem run_copy_of_stop {k : Nat} (h : stop a bs.length = .ok k) :
    (copy a bs).run m = .ok () (m.blit a bs) := by
  simp [copy, EStateM.run_bind, h]

theorem run_copy_of_stop_error (h : stop a bs.length = .error e) :
    (copy a bs).run m = .error e m := by
  simp [copy, EStateM.run_bind, h]

end Runs

end Memory

end Chip8
