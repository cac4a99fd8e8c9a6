import Chip8.Proofs.Tick

/-!
# A tick is plain stepping

What a tick does is said by single steps alone: by the machines that they leave behind one after the
other, and by their answers.

* `Machine.after`, `Machine.answer` : the machine after a number of steps, and the answer of each.
* `Machine.draws`, `Machine.passesOver`, `Machine.shows` : what a step counts for in a tick, and
  what the display has to show after it.
* `Machine.run_of_answers`, `Machine.run_of_first_error` : the two ways a run can go.
* `Console.tick_refines_steps` : **a tick is as many steps as it is given, up to the first error,
  and one decrement of the timers if there is none.**
-/

namespace Chip8

namespace Machine

/-- The machine after `k` steps, each of them taken whatever the one before it answered. -/
def after (m : Machine) : Nat → Machine
  | 0 => m
  | k + 1 => (m.after k).step.machine

/-- The answer of step `k`, counted from zero. -/
def answer (m : Machine) (k : Nat) : Except Error Effect := (m.after k).step.result

/-- Step `k` clears the screen or draws to it. -/
def draws (m : Machine) (k : Nat) : Bool :=
  match m.answer k with
  | .ok .cleared | .ok .drawn => true
  | _ => false

/-- Step `k` is passed over. -/
def passesOver (m : Machine) (k : Nat) : Bool :=
  match m.answer k with
  | .ok (.unsupported _) | .ok (.ignored _) => true
  | _ => false

/-- What the display has to show after step `k`, with the screen as that step leaves it. -/
def shows (m : Machine) (k : Nat) : List Signal :=
  match m.answer k with
  | .ok .cleared => [.clearDisplay]
  | .ok .drawn => [.display (m.after (k + 1)).screen]
  | _ => []

variable {m : Machine}

/-- The steps after the first one are those of the machine that it leaves behind. -/
theorem after_succ (m : Machine) (k : Nat) : m.after (k + 1) = m.step.machine.after k := by
  induction k with
  | zero => rfl
  | succ k ih => exact congrArg (fun m : Machine => m.step.machine) ih

theorem answer_succ (m : Machine) (k : Nat) : m.answer (k + 1) = m.step.machine.answer k := by
  simp only [answer, after_succ]

theorem draws_succ (m : Machine) (k : Nat) : m.draws (k + 1) = m.step.machine.draws k := by
  simp only [draws, answer_succ]

theorem passesOver_succ (m : Machine) (k : Nat) :
    m.passesOver (k + 1) = m.step.machine.passesOver k := by
  simp only [passesOver, answer_succ]

theorem shows_succ (m : Machine) (k : Nat) : m.shows (k + 1) = m.step.machine.shows k := by
  simp only [shows, answer_succ, after_succ]

theorem shows_zero {effect : Effect} (h : m.step.result = .ok effect) :
    m.shows 0 = effect.signals m.step.machine.screen := by
  simp only [shows, show m.answer 0 = _ from h]
  cases effect <;> rfl

/-- No step both draws and is passed over. -/
theorem countP_draws_add_passesOver_le (m : Machine) (steps : List Nat) :
    steps.countP m.draws + steps.countP m.passesOver ≤ steps.length := by
  induction steps with
  | nil => exact Nat.le_refl 0
  | cons k steps ih =>
    have hone : ¬ (m.draws k = true ∧ m.passesOver k = true) := by
      simp only [draws, passesOver]
      split <;> simp [*]
    simp only [List.countP_cons, List.length_cons]
    cases hd : m.draws k <;> cases hp : m.passesOver k <;> simp [hd, hp] at hone ⊢ <;> omega

/-! ### The two ways a run can go -/

/-- Counting over the steps is counting the first one and then the others. -/
theorem countP_range_succ {p q : Nat → Bool} (h : ∀ k, p (k + 1) = q k) (n : Nat) :
    (List.range (n + 1)).countP p = (List.range n).countP q + if p 0 then 1 else 0 := by
  rw [List.range_succ_eq_map, List.countP_cons, List.countP_map]
  congr 1
  exact List.countP_congr fun k _ => by simp only [Function.comp, Nat.succ_eq_add_one, h]

theorem flatMap_range_succ {α : Type} {f g : Nat → List α} (h : ∀ k, f (k + 1) = g k) (n : Nat) :
    (List.range (n + 1)).flatMap f = f 0 ++ (List.range n).flatMap g := by
  rw [List.range_succ_eq_map, List.flatMap_cons, List.flatMap_map]
  simp only [Nat.succ_eq_add_one, h]

/-- Where the first steps succeed, the first one does, and then the others do from the machine that
it leaves behind. -/
theorem answers_succ {n : Nat} (h : ∀ k < n + 1, ∃ effect, m.answer k = .ok effect) :
    (∃ effect, m.step.result = .ok effect) ∧
      ∀ k < n, ∃ effect, m.step.machine.answer k = .ok effect := by
  refine ⟨h 0 n.succ_pos, fun k hk => ?_⟩
  obtain ⟨effect, he⟩ := h (k + 1) (Nat.succ_lt_succ hk)
  exact ⟨effect, m.answer_succ k ▸ he⟩

/-- A run whose steps all succeed takes all of them. -/
theorem run_of_answers {n : Nat} (h : ∀ k < n, ∃ effect, m.answer k = .ok effect) :
    (m.run n).error = none ∧ (m.run n).machine = m.after n ∧
      (m.run n).signals = (List.range n).flatMap m.shows ∧
      (m.run n).summary =
        { executed := n
          draws := (List.range n).countP m.draws
          ignored := (List.range n).countP m.passesOver } := by
  induction n generalizing m with
  | zero => exact ⟨rfl, rfl, rfl, rfl⟩
  | succ n ih =>
    obtain ⟨⟨effect, hs⟩, hrest⟩ := answers_succ h
    obtain ⟨herror, hmachine, hsignals, hsummary⟩ := ih hrest
    rw [run_of_ok hs]
    refine ⟨herror, hmachine.trans (m.after_succ n).symm, ?_, ?_⟩
    · rw [flatMap_range_succ m.shows_succ, ← hsignals, shows_zero hs]
    · rw [countP_range_succ m.draws_succ, countP_range_succ m.passesOver_succ]
      simp only [Run.summary, Run.count, Run.ignored, Summary.mk.injEq] at hsummary ⊢
      obtain ⟨hexecuted, hdraws, hignored⟩ := hsummary
      rw [← hdraws, ← hignored]
      simp only [draws, passesOver, show m.answer 0 = _ from hs]
      cases effect <;> simp [hexecuted, Effect.error?] <;> omega

/-- A run ends with its first step that fails. -/
theorem run_of_first_error {i n : Nat} {e : Error} (hi : i < n)
    (hok : ∀ k < i, ∃ effect, m.answer k = .ok effect) (he : m.answer i = .error e) :
    (m.run n).error = some e ∧ (m.run n).machine = m.after (i + 1) ∧
      (m.run n).signals = (List.range i).flatMap m.shows := by
  induction i generalizing m n with
  | zero =>
    obtain ⟨n, rfl⟩ := Nat.exists_eq_add_one_of_ne_zero (Nat.ne_of_gt hi)
    rw [run_of_error (m := m) he]
    exact ⟨rfl, rfl, rfl⟩
  | succ i ih =>
    obtain ⟨n, rfl⟩ := Nat.exists_eq_add_one_of_ne_zero (Nat.ne_of_gt (Nat.zero_lt_of_lt hi))
    obtain ⟨⟨effect, hs⟩, hrest⟩ := answers_succ hok
    obtain ⟨herror, hmachine, hsignals⟩ :=
      ih (Nat.lt_of_succ_lt_succ hi) hrest (m.answer_succ i ▸ he)
    rw [run_of_ok hs]
    refine ⟨herror, hmachine.trans (m.after_succ (i + 1)).symm, ?_⟩
    rw [flatMap_range_succ m.shows_succ, ← hsignals, shows_zero hs]

end Machine

namespace Console

/-- **A tick is plain stepping.**  Hand over the keys and step the machine. If `n` steps succeed, a
tick of `n` instructions counts them, those that draw and those that are passed over; it leaves the
stepped machine after one decrement of its timers, and has told the display what the steps have to
show, in order. If step `i` is the first to fail, the tick answers its error, leaves the machine as
that step did, and has told the display what the steps before it have to show. -/
theorem tick_refines_steps (c : Console) (keys : Keypad) (n : Nat) :
    let m := c.machine.setKeypad keys
    let reply := c.tick keys n
    let draws := (List.range n).countP m.draws
    let ignored := (List.range n).countP m.passesOver
    ((∀ k < n, ∃ effect, m.answer k = .ok effect) →
      reply.result = .ok { executed := n, draws, ignored } ∧ draws + ignored ≤ n ∧
        reply.console.machine = (m.after n).tickTimers ∧
        reply.signals.filter (·.toDisplay) = (List.range n).flatMap m.shows) ∧
    ∀ i < n, ∀ e, (∀ k < i, ∃ effect, m.answer k = .ok effect) → m.answer i = .error e →
      reply.result = .error e ∧ reply.console.machine = m.after (i + 1) ∧
        reply.signals.filter (·.toDisplay) = (List.range i).flatMap m.shows := by
  intro m reply draws ignored
  have hrun : c.runWith keys n = m.run n := rfl
  refine ⟨fun h => ?_, fun i hi e hok he => ?_⟩
  · obtain ⟨herror, hmachine, hsignals, hsummary⟩ := Machine.run_of_answers h
    have hreply : reply = _ := tick_of_ok (hrun ▸ herror)
    have hcount := m.countP_draws_add_passesOver_le (List.range n)
    rw [List.length_range] at hcount
    refine ⟨?_, hcount, ?_, ?_⟩
    · rw [hreply, hrun, hsummary]
    · rw [hreply, hrun]
      simp only [machine_finishTick, withMachine, hmachine]
    · rw [hreply]
      simp only [List.filter_append, filter_toDisplay_runWith, filter_toDisplay_finishTick,
        List.append_nil]
      exact hsignals
  · obtain ⟨herror, hmachine, hsignals⟩ := Machine.run_of_first_error hi hok he
    have hreply : reply = _ := tick_of_error (hrun ▸ herror)
    rw [hreply]
    refine ⟨rfl, hmachine, ?_⟩
    simp only [filter_toDisplay_runWith]
    exact hsignals

/-- A machine whose program clears the screen and returns from no call. -/
def wiping : Machine :=
  .boot "" (Memory.initial.blit Memory.origin [0x00, 0xE0, 0x00, 0xEE]) {} .zeros

/-- A tick of one instruction, which succeeds, and one of two, of which the second fails. -/
theorem tick_refines_steps_wiping :
    (wiping.setKeypad .released).answer 0 = .ok .cleared ∧
      (wiping.setKeypad .released).answer 1 = .error (.fault (.stack .underflow)) ∧
      (tick { machine := wiping } .released 1).result = .ok ⟨1, 1, 0⟩ ∧
      (tick { machine := wiping } .released 2).result = .error (.fault (.stack .underflow)) ∧
      (tick { machine := wiping } .released 2).signals.filter (·.toDisplay) = [.clearDisplay] := by
  have hnew : Machine.new ⟨"", [0x00, 0xE0, 0x00, 0xEE]⟩ {} = .ok (wiping, _) := rfl
  have h₀ : wiping.memory.fetch 0x200 = .ok 0x00E0 :=
    (Machine.fetch_of_new hnew (k := 0) (by decide)).trans rfl
  have h₂ : wiping.memory.fetch 0x202 = .ok 0x00EE :=
    (Machine.fetch_of_new hnew (k := 2) (by decide)).trans rfl
  -- `m₀` clears the screen, `m₁` returns
  obtain ⟨m₀, hm₀⟩ : ∃ m, m = wiping.setKeypad .released := ⟨_, rfl⟩
  obtain ⟨m₁, hm₁⟩ : ∃ m, m = { wiping with
      opcode := 0x00E0, registers := { Registers.start with pc := 0x202 } } := ⟨_, rfl⟩
  have hs₀ : m₀.step.result = .ok .cleared ∧ m₀.step.machine = m₁ := by
    rw [hm₀, hm₁, Machine.step_of_executed (m := wiping.setKeypad .released) rfl h₀ rfl]
    exact ⟨rfl, rfl⟩
  have hs₁ : m₁.step.result = .error (.fault (.stack .underflow)) := by
    rw [hm₁, Machine.step_of_faulted (m := { wiping with
      opcode := 0x00E0, registers := { Registers.start with pc := 0x202 } }) rfl h₂ rfl]
    rfl
  have ha₀ : m₀.answer 0 = .ok .cleared := hs₀.1
  have ha₁ : m₀.answer 1 = .error (.fault (.stack .underflow)) := by
    rw [Machine.answer_succ, hs₀.2]
    exact hs₁
  have hok : ∀ k < 1, ∃ effect, m₀.answer k = .ok effect := by
    intro k hk
    obtain rfl : k = 0 := by omega
    exact ⟨_, ha₀⟩
  rw [hm₀] at ha₀ ha₁ hok
  obtain ⟨hone, -, -, -⟩ := (tick_refines_steps { machine := wiping } .released 1).1 hok
  obtain ⟨htwo, -, hshown⟩ :=
    (tick_refines_steps { machine := wiping } .released 2).2 1 (by decide) _ hok ha₁
  refine ⟨ha₀, ha₁, hone.trans ?_, htwo, hshown.trans ?_⟩
  · simp only [List.range_one, List.countP_singleton, Machine.draws, Machine.passesOver]
    simp only [ha₀]
    rfl
  · simp only [List.range_one, List.flatMap_singleton, Machine.shows]
    simp only [ha₀]

end Console

end Chip8
