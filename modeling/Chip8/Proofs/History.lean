import Chip8.Machine.Run

/-!
# Since the start of the program

What is told of the steps since the program was started. Only steps add to it; a reset, and another
program that is accepted, begin it anew, and a program that is refused changes nothing.

* `Machine.remember`, `Machine.history` : this, after one more request and after any requests.
* `Machine.performAll_history` : what steps keep and starts begin with holds after any requests.
-/

namespace Chip8

namespace Machine

variable {α : Type} (f : Machine → List α)

/-- What is told since the start of the program, after one more request; of a step `f` tells, by the
machine that it starts from. -/
def remember (m : Machine) (before : List α) : Command → List α
  | .step => before ++ f m
  | .setKeypad _ | .tickTimers | .setGenerator _ => before
  | .reset => []
  | .load rom =>
    match (m.load rom).result with
    | .ok _ => []
    | .error _ => before

/-- What is told since the start of the program, after any requests. -/
def history (m : Machine) (before : List α) : List Command → List α
  | [] => before
  | command :: commands =>
    (m.perform command).machine.history (m.remember f before command) commands

variable {f} {P : Machine → List α → Prop}

/-- **What steps keep and starts begin with holds after any requests**, if keys, timers and random
bytes do not matter for it. -/
theorem performAll_history
    (step : ∀ m before, P m before → P m.step.machine (before ++ f m))
    (quiet : ∀ m before keypad timers generator, P m before →
      P { m with keypad, timers, generator } before)
    (start : ∀ m : Machine, P m.restart [])
    {m : Machine} {before : List α} (h : P m before) (commands : List Command) :
    P (m.performAll commands).machine (m.history f before commands) := by
  induction commands generalizing m before with
  | nil => exact h
  | cons command commands ih =>
    refine ih ?_
    cases command with
    | step => exact step m before h
    | setKeypad keys => exact quiet m before keys m.timers m.generator h
    | tickTimers => exact quiet m before m.keypad m.timers.tick m.generator h
    | setGenerator g => exact quiet m before m.keypad m.timers g h
    | reset => exact start m
    | load rom =>
      simp only [perform, remember, load]
      cases imageOf rom with
      | error e => exact h
      | ok image => exact start { m with name := rom.name, image }

end Machine

end Chip8
