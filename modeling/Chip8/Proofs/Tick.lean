import Chip8.Console
import Chip8.Proofs.Step

/-!
# How a tick can go

A console does in a tick what its machine does in a run, and says so to the devices around it.

* `Machine.run_of_error`, `Machine.run_of_ok` : the first step of a run.
* `Machine.run_of_halted`, `Machine.halted_of_run_error` : errors and halted machines.
* `Machine.unwritten_of_run` : what no run writes.
* `Summary.foldl_record` : counting one step after the other.
* `Signal.toDisplay` : whom a signal is for; the display hears of the steps, the speaker of the
  timers.
* `Console.steps_eq_run` : **the steps of a console are a run of its machine.**
* `Console.tick_of_error`, `Console.tick_of_ok` : the two ends of a tick.
* `Console.unwritten_of_tick` : what no tick writes.
* `Console.performAll_invariant` : what holds of a console and of all that it has told.
-/

namespace Chip8

/-! ### Runs -/

namespace Machine

variable {m : Machine}

theorem run_of_error {e : Error} (h : m.step.result = .error e) (n : Nat) :
    m.run (n + 1) = { error := some e, machine := m.step.machine, log := m.step.log } := by
  simp only [run, h]

theorem run_of_ok {effect : Effect} (h : m.step.result = .ok effect) (n : Nat) :
    m.run (n + 1) =
      { effects := effect :: (m.step.machine.run n).effects
        signals := effect.signals m.step.machine.screen ++ (m.step.machine.run n).signals
        error := (m.step.machine.run n).error
        machine := (m.step.machine.run n).machine
        log := m.step.log ++ (m.step.machine.run n).log } := by
  simp only [run, h]

theorem run_of_halted {f : Fault} (h : m.halted = some f) (n : Nat) :
    m.run (n + 1) = { error := some .halted, machine := m } := by
  rw [run_of_error (e := .halted) (by rw [step_of_halted h]), step_of_halted h]

/-- A halted machine draws nothing and stays as it is. -/
theorem quiet_run_of_halted {f : Fault} (h : m.halted = some f) (n : Nat) :
    (m.run n).signals = [] ∧ (m.run n).machine = m := by
  cases n with
  | zero => exact ⟨rfl, rfl⟩
  | succ n => rw [run_of_halted h]; exact ⟨rfl, rfl⟩

/-- A run that ends in an error leaves a halted machine behind. -/
theorem halted_of_run_error {e : Error} {n : Nat} (h : (m.run n).error = some e) :
    ∃ f, (m.run n).machine.halted = some f := by
  induction n generalizing m with
  | zero => cases h
  | succ n ih =>
    cases hs : m.step.result with
    | error e' =>
      obtain ⟨_, _, f, hm⟩ := machine_of_step_error hs
      exact ⟨f, by rw [run_of_error hs, hm]⟩
    | ok effect =>
      rw [run_of_ok hs] at h ⊢
      exact ih h

theorem unwritten_of_run (m : Machine) (n : Nat) : m.Unwritten (m.run n).machine := by
  induction n generalizing m with
  | zero => exact ⟨rfl, rfl, rfl, rfl⟩
  | succ n ih =>
    cases hs : m.step.result with
    | error e => rw [run_of_error hs]; exact m.unwritten_of_step
    | ok effect => rw [run_of_ok hs]; exact m.unwritten_of_step.trans (ih _)

end Machine

theorem Summary.foldl_record (s : Summary) (effects : List Effect) :
    effects.foldl record s =
      { executed := s.executed + effects.length
        draws := s.draws + (effects.count .cleared + effects.count .drawn)
        ignored := s.ignored + effects.countP (·.error?.isSome) } := by
  induction effects generalizing s with
  | nil => rfl
  | cons effect effects ih =>
    rw [List.foldl_cons, ih]
    cases effect <;> simp [record, Effect.error?] <;> omega

/-- Counting from nothing gives the counts of the run. -/
theorem Run.foldl_record (r : Run) : r.effects.foldl Summary.record {} = r.summary := by
  simp only [Summary.foldl_record, Nat.zero_add]
  rfl

/-! ### Whom a signal is for -/

/-- The signal is for the display, not for the speaker. -/
def Signal.toDisplay : Signal → Bool
  | clearDisplay | display _ => true
  | startSound | stopSound => false

theorem Effect.toDisplay_of_mem_signals {effect : Effect} {screen : Screen} {signal : Signal}
    (h : signal ∈ effect.signals screen) : signal.toDisplay = true := by
  cases effect <;> simp only [signals, List.mem_singleton, List.not_mem_nil] at h <;>
    rw [h] <;> rfl

/-- The display is told what a run draws, and nothing else is told. -/
theorem Machine.toDisplay_of_mem_run {m : Machine} {n : Nat} {signal : Signal}
    (h : signal ∈ (m.run n).signals) : signal.toDisplay = true := by
  induction n generalizing m with
  | zero => cases h
  | succ n ih =>
    cases hs : m.step.result with
    | error e => rw [run_of_error hs] at h; cases h
    | ok effect =>
      rw [run_of_ok hs] at h
      rcases List.mem_append.1 h with h | h
      · exact Effect.toDisplay_of_mem_signals h
      · exact ih h

namespace Console

variable {c : Console} {keys : Keypad} {n : Nat}

/-! ### Steps -/

/-- The run of the machine in a tick, before the timers move. -/
def runWith (c : Console) (keys : Keypad) (n : Nat) : Run := (c.machine.setKeypad keys).run n

theorem toDisplay_of_mem_runWith {signal : Signal} (h : signal ∈ (c.runWith keys n).signals) :
    signal.toDisplay = true :=
  Machine.toDisplay_of_mem_run h

theorem filter_toDisplay_runWith (c : Console) (keys : Keypad) (n : Nat) :
    (c.runWith keys n).signals.filter (·.toDisplay) = (c.runWith keys n).signals :=
  List.filter_eq_self.2 fun _ => toDisplay_of_mem_runWith

/-- **The steps of a console are a run of its machine.** -/
theorem steps_eq_run (c : Console) (n : Nat) (s : Summary) :
    steps n c s =
      { result :=
          match (c.machine.run n).error with
          | some e => .error e
          | none => .ok ((c.machine.run n).effects.foldl Summary.record s)
        console := c.withMachine (c.machine.run n).machine
        signals := (c.machine.run n).signals
        log := (c.machine.run n).log } := by
  -- the counts of a tick go on from `s`, so the induction is over every `s`
  induction n generalizing c s with
  | zero => rfl
  | succ n ih =>
    cases h : c.machine.step.result with
    | error e => simp only [steps, h, Machine.run_of_error h]
    | ok effect =>
      simp only [steps, h, Machine.run_of_ok h, ih]
      rfl

/-! ### The two ends of a tick -/

theorem tick_of_error {e : Error} (h : (c.runWith keys n).error = some e) :
    c.tick keys n =
      { result := .error e
        console := c.withMachine (c.runWith keys n).machine
        signals := (c.runWith keys n).signals
        log := (c.runWith keys n).log } := by
  rw [tick, steps_eq_run]
  unfold runWith at h
  simp only [withMachine, h]
  rfl

theorem tick_of_ok (h : (c.runWith keys n).error = none) :
    c.tick keys n =
      let finished := (c.withMachine (c.runWith keys n).machine).finishTick
      { result := .ok (c.runWith keys n).summary
        console := finished.1
        signals := (c.runWith keys n).signals ++ finished.2
        log := (c.runWith keys n).log } := by
  rw [tick, steps_eq_run]
  unfold runWith at h
  simp only [withMachine, h, Run.foldl_record]
  rfl

theorem tick_of_halted {f : Fault} (h : c.machine.halted = some f) :
    c.tick keys (n + 1) =
      { result := .error .halted, console := c.withMachine (c.machine.setKeypad keys) } := by
  have hr : c.runWith keys (n + 1) =
      { error := some .halted, machine := c.machine.setKeypad keys } :=
    Machine.run_of_halted (m := c.machine.setKeypad keys) h n
  rw [tick_of_error (by rw [hr]), hr]

theorem machine_updateAudio (c : Console) : c.updateAudio.1.machine = c.machine := by
  simp only [updateAudio]
  split <;> rfl

theorem machine_finishTick (c : Console) : c.finishTick.1.machine = c.machine.tickTimers := by
  simp only [finishTick, withMachine, machine_updateAudio]

/-- A tick hands over the keys; of what no step writes, it writes nothing else. -/
theorem unwritten_of_tick (c : Console) (keys : Keypad) (n : Nat) :
    (c.machine.setKeypad keys).Unwritten (c.tick keys n).console.machine := by
  have hrun := (c.machine.setKeypad keys).unwritten_of_run n
  cases he : (c.runWith keys n).error with
  | some e => rw [tick_of_error he]; exact hrun
  | none =>
    rw [tick_of_ok he]
    simp only [machine_finishTick]
    exact ⟨hrun.name, hrun.image, hrun.keypad, hrun.config⟩

theorem halted_of_tick (c : Console) (keys : Keypad) (n : Nat) :
    (c.tick keys n).console.machine.halted = (c.runWith keys n).machine.halted := by
  cases he : (c.runWith keys n).error with
  | some e => rw [tick_of_error he]; rfl
  | none =>
    rw [tick_of_ok he]
    simp only [machine_finishTick]
    rfl

theorem log_of_tick (c : Console) (keys : Keypad) (n : Nat) :
    (c.tick keys n).log = (c.runWith keys n).log := by
  cases he : (c.runWith keys n).error with
  | some e => rw [tick_of_error he]
  | none => rw [tick_of_ok he]

theorem toDisplay_of_mem_updateAudio {signal : Signal} (h : signal ∈ c.updateAudio.2) :
    signal.toDisplay = false := by
  simp only [updateAudio] at h
  split at h
  · cases h
  · rw [List.mem_singleton.1 h]
    split <;> rfl

theorem toDisplay_of_mem_finishTick {signal : Signal} (h : signal ∈ c.finishTick.2) :
    signal.toDisplay = false := by
  rcases List.mem_append.1 h with h | h <;> exact toDisplay_of_mem_updateAudio h

/-- What a tick tells at its end is for the speaker. -/
theorem filter_toDisplay_finishTick (c : Console) : c.finishTick.2.filter (·.toDisplay) = [] :=
  List.filter_eq_nil_iff.2 fun _ h => by simp only [toDisplay_of_mem_finishTick h, reduceCtorEq,
    not_false_eq_true]

/-! ### Requests -/

/-- What every request preserves of a console and of all that it has told holds after any number
of requests. -/
theorem performAll_invariant {P : Console → List Signal → Prop} {commands : List Command}
    (hstep : ∀ command ∈ commands, ∀ c told, P c told →
      P (c.perform command).console (told ++ (c.perform command).signals))
    (told : List Signal) (h : P c told) :
    P (c.performAll commands).console (told ++ (c.performAll commands).signals) := by
  induction commands generalizing c told with
  | nil => simpa [performAll] using h
  | cons command commands ih =>
    have hfirst := hstep command List.mem_cons_self c told h
    have hrest := ih (fun x hx => hstep x (List.mem_cons_of_mem _ hx)) _ hfirst
    rwa [List.append_assoc] at hrest

end Console

end Chip8
