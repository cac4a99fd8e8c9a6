import Chip8.Proofs.Tick

/-!
# The picture on the display

A display knows the screen only from what it is told. It is told enough: nothing changes a pixel
without saying so.

* `Signal.shown`, `Signal.picture` : what the display shows after one signal, and after many.
* `Machine.shown_of_execute`, `Machine.shown_of_step`, `Machine.shown_of_run` : the display follows
  an instruction, a step and a run.
* `Console.shown_of_perform` : the display follows a request.
* `Console.picture_eq_screen` : **the picture is the screen after any requests**, and a tick tells
  the display as often as it counts a draw.
-/

namespace Chip8

/-- What a display shows after a signal. -/
def Signal.shown (before : Screen) : Signal → Screen
  | clearDisplay => .blank
  | display screen => screen
  | startSound | stopSound => before

/-- What a display that was dark at first shows after all signals. -/
def Signal.picture (signals : List Signal) : Screen := signals.foldl shown .blank

theorem Signal.foldl_shown_of_audio {signals : List Signal}
    (h : ∀ signal ∈ signals, signal.toDisplay = false) (before : Screen) :
    signals.foldl shown before = before := by
  induction signals with
  | nil => rfl
  | cons signal signals ih =>
    have hs : shown before signal = before := by
      have ha := h signal List.mem_cons_self
      cases signal with
      | clearDisplay | display => cases ha
      | startSound | stopSound => rfl
    rw [List.foldl_cons, hs]
    exact ih fun s hs => h s (List.mem_cons_of_mem _ hs)

/-! ### Steps and runs -/

namespace Machine

variable {m : Machine}

/-- Only an instruction that says so changes the screen. -/
theorem shown_of_execute {i : Instruction} {e : Execution} (h : m.execute i = .ok e) :
    (e.effect.signals e.machine.screen).foldl Signal.shown m.screen = e.machine.screen := by
  cases executed_of_execute h <;> rfl

/-- The display follows a step that says what it did. -/
theorem shown_of_step {effect : Effect} (h : m.step.result = .ok effect) :
    (effect.signals m.step.machine.screen).foldl Signal.shown m.screen =
      m.step.machine.screen := by
  rcases step_of_ok h with ⟨w, e, hf, hx, rfl, hs⟩ | ⟨w, f, hf, hx, rfl, hs⟩
  · -- the fetch leaves the screen as it is
    have hshown := shown_of_execute hx
    rw [hs]
    exact hshown
  · -- a fault that is passed over draws nothing
    rw [hs]
    rfl

/-- The display follows a run, whatever ends it. -/
theorem shown_of_run (m : Machine) (n : Nat) :
    (m.run n).signals.foldl Signal.shown m.screen = (m.run n).machine.screen := by
  induction n generalizing m with
  | zero => rfl
  | succ n ih =>
    cases h : m.step.result with
    | error e =>
      obtain ⟨_, _, _, hm⟩ := machine_of_step_error h
      rw [run_of_error h, hm]
      rfl
    | ok effect =>
      rw [run_of_ok h]
      simp only [List.foldl_append, shown_of_step h, ih]

/-- The display is told as often as the run draws. -/
theorem length_signals_run (m : Machine) (n : Nat) :
    (m.run n).signals.length = (m.run n).summary.draws := by
  induction n generalizing m with
  | zero => rfl
  | succ n ih =>
    cases h : m.step.result with
    | error e => rw [run_of_error h]; rfl
    | ok effect =>
      rw [run_of_ok h]
      have hn := ih m.step.machine
      simp only [Run.summary, Run.count] at hn
      cases effect <;> simp [Effect.signals, Run.summary, Run.count, hn] <;> omega

end Machine

/-! ### Ticks and requests -/

namespace Console

variable {c : Console}

/-- The display follows a tick, whatever ends it. -/
theorem shown_of_tick (c : Console) (keys : Keypad) (n : Nat) :
    (c.tick keys n).signals.foldl Signal.shown c.machine.screen =
      (c.tick keys n).console.machine.screen := by
  have hrun : (c.runWith keys n).signals.foldl Signal.shown c.machine.screen =
      (c.runWith keys n).machine.screen := (c.machine.setKeypad keys).shown_of_run n
  cases h : (c.runWith keys n).error with
  | some e =>
    rw [tick_of_error h]
    exact hrun
  | none =>
    rw [tick_of_ok h]
    -- the timers and the speaker come after the steps, and concern no pixel
    simp only [List.foldl_append, hrun, machine_finishTick]
    exact Signal.foldl_shown_of_audio (fun _ hs => toDisplay_of_mem_finishTick hs) _

/-- A tick without an error tells the display as often as it counts a draw. -/
theorem countP_signals_tick {keys : Keypad} {n : Nat} {s : Summary}
    (h : (c.tick keys n).result = .ok s) :
    (c.tick keys n).signals.countP (·.toDisplay) = s.draws := by
  cases he : (c.runWith keys n).error with
  | some e => rw [tick_of_error he] at h; cases h
  | none =>
    rw [tick_of_ok he] at h ⊢
    cases h
    have hsteps : (c.runWith keys n).signals.countP (·.toDisplay) =
        (c.runWith keys n).summary.draws := by
      rw [List.countP_eq_length.2 fun _ hs => toDisplay_of_mem_runWith hs]
      exact (c.machine.setKeypad keys).length_signals_run n
    have hend : (c.withMachine (c.runWith keys n).machine).finishTick.2.countP (·.toDisplay) = 0 :=
      List.countP_eq_zero.2 fun _ hs => by simp [toDisplay_of_mem_finishTick hs]
    simp only [List.countP_append, hsteps, hend, Nat.add_zero]

/-- The request goes to the machine, past the display and the speaker. -/
def Command.isDirect : Command → Bool
  | .machine _ => true
  | .tick .. | .frame _ | .reset => false

/-- The display follows a request that does not go past it. -/
theorem shown_of_perform {command : Command} (hd : command.isDirect = false) (c : Console) :
    (c.perform command).signals.foldl Signal.shown c.machine.screen =
      (c.perform command).console.machine.screen := by
  cases command with
  | tick keys n => exact c.shown_of_tick keys n
  | frame keys => exact c.shown_of_tick keys _
  | reset =>
    -- dark before the speaker is told, and dark afterwards
    have hdark : (c.perform .reset).signals.foldl Signal.shown c.machine.screen = .blank :=
      Signal.foldl_shown_of_audio (fun _ hs => toDisplay_of_mem_updateAudio hs) .blank
    rw [hdark]
    simp only [perform, reset, machine_updateAudio]
    rfl
  | machine command => cases hd

theorem countP_signals_perform {command : Command} {s : Summary}
    (h : (c.perform command).result = .ok (.ticked s)) :
    (c.perform command).signals.countP (·.toDisplay) = s.draws := by
  have hmap : ∀ {r : Except Error Summary}, r.map Answer.ticked = .ok (.ticked s) → r = .ok s := by
    intro r hr
    cases r with
    | error e => cases hr
    | ok s' => cases hr; rfl
  cases command with
  | tick keys n => exact countP_signals_tick (hmap h)
  | frame keys => exact countP_signals_tick (hmap h)
  | reset => cases h
  | machine command =>
    simp only [perform] at h
    cases hr : (c.machine.perform command).result <;> rw [hr] at h <;> cases h

/-- **The picture is never stale.**  On a console around a new machine, whatever random bytes it
has, after any ticks, frames and resets, the display shows the screen; and a tick without an error
tells the display as often as it counts a draw. -/
theorem picture_eq_screen {rom : Rom} {config : Config} {environment : Nat → Byte} {m : Machine}
    {log : Log} (hnew : Machine.new rom config environment = .ok (m, log)) (g : Generator)
    (commands : List Command) (hd : ∀ command ∈ commands, command.isDirect = false) :
    let reply := performAll { machine := m.setGenerator g } commands
    Signal.picture reply.signals = reply.console.machine.screen ∧
      ∀ command s, (reply.console.perform command).result = .ok (.ticked s) →
        (reply.console.perform command).signals.countP (·.toDisplay) = s.draws := by
  refine ⟨?_, fun command s h => ?_⟩
  · have hdark : m.screen = .blank := by
      obtain ⟨image, -, rfl⟩ := Machine.boot_of_new hnew
      rfl
    refine performAll_invariant (P := fun c told => Signal.picture told = c.machine.screen)
      (fun command hmem c told hp => ?_) [] hdark.symm
    have hs := shown_of_perform (hd command hmem) c
    rwa [← hp, Signal.picture, ← List.foldl_append] at hs
  · exact countP_signals_perform h

/-- A machine whose program clears the screen. -/
def clearing : Machine := .boot "" (Memory.initial.blit Memory.origin [0x00, 0xE0]) {} .zeros

/-- A reset, and a tick in which the screen is cleared, with random bytes that count up. -/
theorem picture_eq_screen_clearing :
    Machine.new ⟨"", [0x00, 0xE0]⟩ {} = .ok (clearing, [.loaded "" 2]) ∧
      let reply := performAll { machine := clearing.setGenerator (.counter 7 1) } [.reset]
      Signal.picture reply.signals = reply.console.machine.screen ∧
        (reply.console.perform (.tick .released 1)).result = .ok (.ticked ⟨1, 1, 0⟩) ∧
        (reply.console.perform (.tick .released 1)).signals.countP (·.toDisplay) = 1 := by
  have hnew : Machine.new ⟨"", [0x00, 0xE0]⟩ {} = .ok (clearing, [.loaded "" 2]) := rfl
  refine ⟨hnew, ?_⟩
  intro reply
  have hd : ∀ command ∈ [Command.reset], command.isDirect = false := by simp [Command.isDirect]
  obtain ⟨hp, hc⟩ := picture_eq_screen hnew (.counter 7 1) [.reset] hd
  obtain ⟨m, hm⟩ : ∃ m, m = (clearing.setGenerator (.counter 7 1)).setKeypad .released := ⟨_, rfl⟩
  have hrunning : m.halted = none := by rw [hm]; rfl
  have hf : m.memory.fetch m.registers.pc = .ok 0x00E0 := by
    rw [hm]
    exact (Machine.fetch_of_new hnew (k := 0) (by decide)).trans rfl
  have hx : (m.fetched 0x00E0).execute (.ofWord 0x00E0) = .ok _ := rfl
  have hs := Machine.step_of_executed hrunning hf hx
  have hr : (reply.console.perform (.tick .released 1)).result = .ok (.ticked ⟨1, 1, 0⟩) := by
    have hrun := Machine.run_of_ok (show m.step.result = .ok .cleared by rw [hs]; rfl) 0
    have he : reply.console.runWith .released 1 = m.run 1 := by rw [hm]; rfl
    rw [hrun] at he
    simp only [perform]
    rw [tick_of_ok (by rw [he]; rfl), he]
    rfl
  exact ⟨hp, hr, hc _ _ hr⟩

end Console

end Chip8
