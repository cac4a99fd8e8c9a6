import Chip8.Proofs.Countdown

/-!
# The tone after an error

The speaker is told of the sound timer at the end of a tick, and a tick that ends in an error has no
such end. What the instructions before the error wrote to the sound timer, which `Machine.writes` of
`Chip8.Proofs.Countdown` lists, is then never told.

* `Signal.playing` : the tone as the speaker knows it.
* `Console.performAll_of_halted` : a halted machine never tells the speaker again.
* `Console.playing_after_error_iff` : **after an error the speaker agrees with the sound timer
  exactly if the last value written to it leaves the tone as it was before the tick.**
-/

namespace Chip8

/-- The speaker was told to play, and not to stop since. Before it is told anything it is silent. -/
def Signal.playing (signals : List Signal) : Bool :=
  (signals.filter (!·.toDisplay)).getLast? == some .startSound

theorem Signal.playing_append {signals : List Signal}
    (h : ∀ signal ∈ signals, signal.toDisplay = true) (told : List Signal) :
    playing (told ++ signals) = playing told := by
  have hnone : signals.filter (!·.toDisplay) = [] :=
    List.filter_eq_nil_iff.2 fun s hs => by simp [h s hs]
  simp only [playing, List.filter_append, hnone, List.append_nil]

/-! ### Ticks that end in an error -/

namespace Console

variable {c : Console} {keys : Keypad} {n : Nat}

/-- Further ticks of a halted machine tell the speaker nothing, and its timers stand still. -/
theorem performAll_of_halted {f : Fault} (h : c.machine.halted = some f) {commands : List Command}
    (hticks : ∀ command ∈ commands, ∃ keys n, command = .tick keys (n + 1)) :
    (c.performAll commands).signals = [] ∧
      (c.performAll commands).console.machine.timers = c.machine.timers := by
  have hinv : (c.performAll commands).console.machine.halted = some f ∧
      [] ++ (c.performAll commands).signals = [] ∧
      (c.performAll commands).console.machine.timers = c.machine.timers := by
    refine performAll_invariant (P := fun d told =>
      d.machine.halted = some f ∧ told = [] ∧ d.machine.timers = c.machine.timers)
      ?_ [] ⟨h, rfl, rfl⟩
    rintro command hmem d told ⟨hd, rfl, htimers⟩
    obtain ⟨keys, n, rfl⟩ := hticks command hmem
    simp only [perform, tick_of_halted hd]
    exact ⟨hd, rfl, htimers⟩
  exact hinv.2

/-- **When the speaker agrees with the sound timer after an error.**  Suppose they agree before a
tick, or before a frame, which is a tick of the configured length, and it ends in an error. Then
they agree afterwards exactly if the last value that the steps before the error wrote to the sound
timer, if there is one, leaves the tone as it was before. Further ticks do not mend it: the halted
machine tells the speaker nothing, and its timers stand still. -/
theorem playing_after_error_iff {told : List Signal} {e : Error}
    (htold : Signal.playing told = c.machine.timers.sounding)
    (he : (c.tick keys n).result = .error e) :
    let reply := c.tick keys n
    (Signal.playing (told ++ reply.signals) = reply.console.machine.timers.sounding ↔
      ∀ b, ((c.machine.setKeypad keys).writes .sound n).getLast? = some b →
        (b != 0) = c.machine.timers.sounding) ∧
    ∀ commands, (∀ command ∈ commands, ∃ keys n, command = .tick keys (n + 1)) →
      (reply.console.performAll commands).signals = [] ∧
        (reply.console.performAll commands).console.machine.timers =
          reply.console.machine.timers := by
  intro reply
  obtain ⟨e', hrun⟩ : ∃ e', (c.runWith keys n).error = some e' := by
    cases hr : (c.runWith keys n).error with
    | some e' => exact ⟨e', rfl⟩
    | none => rw [tick_of_ok hr] at he; cases he
  have hreply : reply = _ := tick_of_error hrun
  -- the display alone is told of the steps, so the speaker still knows what it knew before
  have hplaying : Signal.playing (told ++ reply.signals) = c.machine.timers.sounding := by
    rw [hreply, Signal.playing_append fun _ hs => toDisplay_of_mem_runWith hs, htold]
  have hsound : reply.console.machine.timers.sound =
      ((c.machine.setKeypad keys).writes .sound n).getLast?.getD c.machine.timers.sound := by
    rw [hreply]
    exact (c.machine.setKeypad keys).get_of_run .sound n
  refine ⟨?_, fun commands hticks => ?_⟩
  · rw [hplaying]
    simp only [Timers.sounding, hsound]
    cases ((c.machine.setKeypad keys).writes .sound n).getLast? with
    | none => simp
    | some b => simp [eq_comm]
  · obtain ⟨f, hf⟩ := Machine.halted_of_run_error hrun
    have hhalted : reply.console.machine.halted = some f := by rw [hreply]; exact hf
    exact performAll_of_halted hhalted hticks

/-- A machine whose program silences the tone and returns from no call. -/
def silencing : Machine :=
  .boot "" (Memory.initial.blit Memory.origin [0xF0, 0x18, 0x00, 0xEE]) {} .zeros

/-- The tone was off before the error, and the last value written keeps it off. -/
theorem playing_after_error_iff_silencing :
    Signal.playing [] = silencing.timers.sounding ∧
      (tick { machine := silencing } .released 2).result = .error (.fault (.stack .underflow)) ∧
      (silencing.setKeypad .released).writes .sound 2 = [0] ∧
      Signal.playing ([] ++ (tick { machine := silencing } .released 2).signals) =
        (tick { machine := silencing } .released 2).console.machine.timers.sounding := by
  have hnew : Machine.new ⟨"", [0xF0, 0x18, 0x00, 0xEE]⟩ {} = .ok (silencing, _) := rfl
  have h₀ : silencing.memory.fetch 0x200 = .ok 0xF018 :=
    (Machine.fetch_of_new hnew (k := 0) (by decide)).trans rfl
  have h₂ : silencing.memory.fetch 0x202 = .ok 0x00EE :=
    (Machine.fetch_of_new hnew (k := 2) (by decide)).trans rfl
  -- `m₀` writes register 0 to the sound timer, `m₁` returns
  obtain ⟨m₀, hm₀⟩ : ∃ m, m = silencing.setKeypad .released := ⟨_, rfl⟩
  obtain ⟨m₁, hm₁⟩ : ∃ m, m = { silencing with
      opcode := 0xF018, registers := { Registers.start with pc := 0x202 } } := ⟨_, rfl⟩
  have hs₀ : m₀.step.result = .ok .none ∧ m₀.step.machine = m₁ := by
    rw [hm₀, hm₁, Machine.step_of_executed (m := silencing.setKeypad .released) rfl h₀ rfl]
    exact ⟨rfl, rfl⟩
  have hs₁ : m₁.step = m₁.afterFault 0x00EE (.stack .underflow) := by
    rw [hm₁]
    exact Machine.step_of_faulted rfl h₂ rfl
  have he : m₁.step.result = .error (.fault (.stack .underflow)) := by
    rw [hs₁, hm₁]
    rfl
  have ht : m₀.writes .sound 2 = [0] := by
    have h : m₀.written .sound = some 0 := by
      rw [hm₀, Machine.written_of_fetch (m := silencing.setKeypad .released) .sound h₀]
      rfl
    simp only [Machine.writes, hs₀, he, h]
    rfl
  have hrun : (m₀.run 2).error = some (.fault (.stack .underflow)) := by
    rw [Machine.run_of_ok hs₀.1, hs₀.2, Machine.run_of_error he]
  have htick : (tick { machine := silencing } .released 2).result =
      .error (.fault (.stack .underflow)) := by
    rw [tick_of_error (by rw [runWith, ← hm₀, hrun])]
  refine ⟨rfl, htick, hm₀ ▸ ht, (playing_after_error_iff rfl htick).1.2 fun b hb => ?_⟩
  rw [← hm₀, ht] at hb
  cases hb
  rfl

/-- A machine whose program starts the tone and returns from no call. -/
def droning : Machine :=
  .boot "" (Memory.initial.blit Memory.origin [0x60, 0x05, 0xF0, 0x18, 0x00, 0xEE]) {} .zeros

/-- The tone was off before the error, and the speaker does not learn that it is on. -/
theorem silent_after_error :
    Machine.new ⟨"", [0x60, 0x05, 0xF0, 0x18, 0x00, 0xEE]⟩ {} = .ok (droning, [.loaded "" 6]) ∧
      Signal.playing [] = droning.timers.sounding ∧
      (tick { machine := droning } .released 3).result = .error (.fault (.stack .underflow)) ∧
      Signal.playing ([] ++ (tick { machine := droning } .released 3).signals) = false ∧
      (tick { machine := droning } .released 3).console.machine.timers.sounding = true := by
  have hnew : Machine.new ⟨"", [0x60, 0x05, 0xF0, 0x18, 0x00, 0xEE]⟩ {} =
      .ok (droning, [.loaded "" 6]) := rfl
  have h₀ : droning.memory.fetch 0x200 = .ok 0x6005 :=
    (Machine.fetch_of_new hnew (k := 0) (by decide)).trans rfl
  have h₂ : droning.memory.fetch 0x202 = .ok 0xF018 :=
    (Machine.fetch_of_new hnew (k := 2) (by decide)).trans rfl
  have h₄ : droning.memory.fetch 0x204 = .ok 0x00EE :=
    (Machine.fetch_of_new hnew (k := 4) (by decide)).trans rfl
  -- `m₀` sets register 0 to 5, `m₁` writes it to the sound timer, `m₂` returns
  obtain ⟨m₀, hm₀⟩ : ∃ m, m = droning.setKeypad .released := ⟨_, rfl⟩
  obtain ⟨r, hr⟩ : ∃ r, r = { Registers.start.set 0 5 with pc := 0x202 } := ⟨_, rfl⟩
  obtain ⟨m₁, hm₁⟩ : ∃ m, m = { droning with opcode := 0x6005, registers := r } := ⟨_, rfl⟩
  obtain ⟨m₂, hm₂⟩ : ∃ m, m = { droning with
      opcode := 0xF018, registers := { r with pc := 0x204 }, timers := { sound := 5 } } := ⟨_, rfl⟩
  have hs₀ : m₀.step.result = .ok .none ∧ m₀.step.machine = m₁ := by
    rw [hm₀, hm₁, hr, Machine.step_of_executed (m := droning.setKeypad .released) rfl h₀ rfl]
    exact ⟨rfl, rfl⟩
  have hs₁ : m₁.step.result = .ok .none ∧ m₁.step.machine = m₂ := by
    have hs : m₁.step = m₁.afterExecution 0xF018
        { machine := { m₁.fetched 0xF018 with timers := { sound := 5 } } } := by
      rw [hm₁, hr]
      exact Machine.step_of_executed rfl h₂ rfl
    rw [hs, hm₁, hm₂, hr]
    exact ⟨rfl, rfl⟩
  have hs₂ : m₂.step = m₂.afterFault 0x00EE (.stack .underflow) := by
    rw [hm₂, hr]
    exact Machine.step_of_faulted rfl h₄ rfl
  have he : m₂.step.result = .error (.fault (.stack .underflow)) := by
    rw [hs₂, hm₂]
    rfl
  have hrun : (m₀.run 3).error = some (.fault (.stack .underflow)) ∧
      (m₀.run 3).signals = [] ∧ (m₀.run 3).machine = m₂.step.machine := by
    rw [Machine.run_of_ok hs₀.1, hs₀.2, Machine.run_of_ok hs₁.1, hs₁.2, Machine.run_of_error he]
    simp only [Effect.signals, List.append_nil, and_self]
  have hw : runWith { machine := droning } .released 3 = m₀.run 3 := by rw [hm₀]; rfl
  rw [tick_of_error (by rw [hw, hrun.1]), hw, hrun.2.1, hrun.2.2, hs₂]
  refine ⟨hnew, rfl, rfl, rfl, ?_⟩
  rw [hm₂]
  rfl

end Console

end Chip8
