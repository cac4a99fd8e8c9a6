import Chip8.Fault

/-!
# The call stack

A stack of at most sixteen return addresses.

* `CallStack.push`, `CallStack.pop` : refuse with the cause when the stack is full or empty.
* `CallStack.toList` : the addresses, the oldest first; `CallStack.toList_inj` : they are all of it.
* `CallStack.toList_push`, `CallStack.toList_pop` : what the two do to that list.
-/

namespace Chip8

/-- The number of addresses that fit. -/
def CallStack.capacity : Nat := 16

/-- The return addresses of the calls that are under way. -/
structure CallStack where
  /-- The addresses, the newest first. -/
  entries : List Nat
  /-- A stack never holds more addresses than fit. -/
  length_le : entries.length ≤ CallStack.capacity
  deriving DecidableEq

namespace CallStack

/-- The stack without a call. -/
def empty : CallStack := ⟨[], by decide⟩

/-- The addresses, the oldest first. -/
def toList (s : CallStack) : List Nat := s.entries.reverse

/-- The number of calls under way. -/
def depth (s : CallStack) : Nat := s.entries.length

/-- The stack with `address` on top. -/
def push (s : CallStack) (address : Nat) : Except StackError CallStack :=
  if h : s.depth < capacity then
    .ok ⟨address :: s.entries, h⟩
  else .error .overflow

/-- The address on top, and the stack below it. -/
def pop : CallStack → Except StackError (Nat × CallStack)
  | ⟨[], _⟩ => .error .underflow
  | ⟨address :: rest, h⟩ => .ok (address, ⟨rest, Nat.le_of_succ_le h⟩)

theorem toList_inj {s t : CallStack} : s.toList = t.toList ↔ s = t := by
  obtain ⟨entries, _⟩ := s
  obtain ⟨others, _⟩ := t
  rw [CallStack.mk.injEq]
  exact List.reverse_inj

theorem toList_push {s t : CallStack} {a : Nat} (h : s.push a = .ok t) :
    t.toList = s.toList ++ [a] := by
  unfold push at h
  split at h
  · cases h; simp [toList]
  · cases h

theorem toList_pop {s t : CallStack} {a : Nat} (h : s.pop = .ok (a, t)) :
    s.toList = t.toList ++ [a] := by
  obtain ⟨_ | ⟨b, r⟩, _⟩ := s
  · cases h
  · cases h; simp [toList]

theorem push_eq_error_iff {s : CallStack} {a : Nat} {e : StackError} :
    s.push a = .error e ↔ s.depth = capacity ∧ e = .overflow := by
  have h : s.depth ≤ capacity := s.length_le
  unfold push
  split
  · simp only [reduceCtorEq, false_iff]
    omega
  · simp only [Except.error.injEq, eq_comm (a := e), iff_and_self]
    omega

theorem pop_eq_error_iff {s : CallStack} {e : StackError} :
    s.pop = .error e ↔ s = empty ∧ e = .underflow := by
  obtain ⟨_ | ⟨b, r⟩, _⟩ := s <;> simp [pop, empty, eq_comm]

end CallStack

end Chip8
