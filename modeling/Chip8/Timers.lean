import Chip8.Word

/-!
# The timers

Two countdowns that are decremented together until each is zero. The machine sounds its tone while
the sound timer is not zero.

* `Timers.tick` : one decrement of both.
* `Timers.toNat_delay_ticks`, `Timers.toNat_sound_ticks` : what many decrements leave.
-/

namespace Chip8

/-- The two countdowns. -/
structure Timers where
  /-- The countdown that programs can read. -/
  delay : Byte := 0
  /-- The countdown of the tone. -/
  sound : Byte := 0
  deriving DecidableEq, Repr

namespace Timers

/-- Ticks in a second. -/
def rate : Nat := 60

/-- The whole milliseconds between two ticks. -/
def interval : Nat := 1000 / rate

/-- One less, but not below zero. -/
def countdown (b : Byte) : Byte := if b = 0 then 0 else b - 1

/-- Decrements both timers. -/
def tick (t : Timers) : Timers := ⟨countdown t.delay, countdown t.sound⟩

/-- Decrements both timers `n` times. -/
def ticks : Nat → Timers → Timers
  | 0, t => t
  | n + 1, t => ticks n t.tick

/-- The tone sounds. -/
def sounding (t : Timers) : Bool := t.sound != 0

theorem toNat_countdown (b : Byte) : (countdown b).toNat = b.toNat - 1 := by
  unfold countdown
  split
  · simp [*]
  · rename_i h
    have hb : b.toNat ≠ 0 := fun h' => h (BitVec.eq_of_toNat_eq h')
    rw [BitVec.toNat_sub_of_le]
    · rfl
    · rw [BitVec.le_def]
      exact Nat.one_le_iff_ne_zero.2 hb

theorem toNat_delay_ticks (n : Nat) (t : Timers) :
    (ticks n t).delay.toNat = t.delay.toNat - n := by
  induction n generalizing t with
  | zero => rfl
  | succ n ih => rw [ticks, ih, tick, toNat_countdown]; omega

theorem toNat_sound_ticks (n : Nat) (t : Timers) :
    (ticks n t).sound.toNat = t.sound.toNat - n := by
  induction n generalizing t with
  | zero => rfl
  | succ n ih => rw [ticks, ih, tick, toNat_countdown]; omega

end Timers

end Chip8
