/-!
# Locks

Threads share keypads and consoles behind locks. How a lock works inside is not said here: it is
anything that can be taken and let go, and what is proved about threads rests on what a lock
promises.

* `Lock` : what can be done with a lock.
* `Lock.Held` : whoever asks for the lock has to wait.
* `Lock.Lawful` : what a lock promises.
* `Lock.flag` : a lock that is a single bit, and keeps the promises.
-/

namespace Chip8

/-- What can be done with a lock. -/
structure Lock where
  /-- What a lock is like at some time. -/
  State : Type
  /-- A new lock. -/
  new : State
  /-- The lock once it is taken; `none` if whoever asks for it has to wait. -/
  take : State → Option State
  /-- The lock once whoever holds it has let go of it. -/
  release : State → State
  /-- The lock once whoever holds it has panicked. -/
  unwind : State → State

namespace Lock

/-- Whoever asks for the lock has to wait. -/
def Held (l : Lock) (s : l.State) : Prop := l.take s = none

/-- What a lock promises. -/
structure Lawful (l : Lock) : Prop where
  /-- A new lock can be taken. -/
  free_new : ¬l.Held l.new
  /-- Of two threads only one has the lock: while it is taken, others wait. -/
  held_of_take : ∀ {s t}, l.take s = some t → l.Held t
  /-- Whoever lets go of the lock leaves it to others. -/
  free_release : ∀ {s}, l.Held s → ¬l.Held (l.release s)
  /-- A panic lets go of the lock too, and does not spoil it for others. -/
  free_unwind : ∀ {s}, l.Held s → ¬l.Held (l.unwind s)

variable {l : Lock} {s : l.State}

theorem exists_take (h : ¬l.Held s) : ∃ t, l.take s = some t := Option.ne_none_iff_exists'.1 h

theorem not_held_of_take {t : l.State} (h : l.take s = some t) : ¬l.Held s := by
  intro hheld
  rw [Held, h] at hheld
  cases hheld

/-- A lock that is a single bit, which is set while it is held. -/
def flag : Lock where
  State := Bool
  new := false
  take held := if held then none else some true
  release _ := false
  unwind _ := false

theorem lawful_flag : flag.Lawful where
  free_new := nofun
  held_of_take {s t} h := by
    cases s <;> cases h
    rfl
  free_release _ := nofun
  free_unwind _ := nofun

end Lock

end Chip8
