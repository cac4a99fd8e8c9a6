import Chip8.Proofs.Tick

/-!
# What the timers count

A timer counts the ticks that succeed: it is set by instructions, in the middle of a tick, and is
decremented at the end of every tick that ends without an error, however many instructions the tick
has.

* `Timer`, `Timers.get` : the two timers, and what they show.
* `Instruction.written`, `Machine.written`, `Machine.writes`, `Console.writes` : what an
  instruction, a step, a run and each of some ticks write to a timer.
* `Machine.get_of_run` : the last write of a run stands.
* `Console.get_of_tick` : a tick is one decrement, or none if it fails.
* `Console.timer_of_ticks` : **a timer is its last value less the ticks that have succeeded since.**
-/

namespace Chip8

/-- One of the two timers. -/
inductive Timer where
  /-- The countdown that programs can read. -/
  | delay
  /-- The countdown of the tone. -/
  | sound
  deriving DecidableEq

/-- What a timer shows. -/
def Timers.get (t : Timers) : Timer → Byte
  | .delay => t.delay
  | .sound => t.sound

theorem Timers.toNat_get_tick (t : Timers) (d : Timer) :
    (t.tick.get d).toNat = (t.get d).toNat - 1 := by
  cases d <;> exact toNat_countdown _

/-! ### Writes to a timer -/

/-- What an instruction writes to a timer of a machine with the registers `r`: an `FX15` writes
register `x` to the delay timer, and an `FX18` writes it to the sound timer. -/
def Instruction.written (r : Registers) : Timer → Instruction → Option Byte
  | .delay, .setDelay x => some (r.get x)
  | .sound, .setSound x => some (r.get x)
  | _, _ => none

namespace Machine

variable {m : Machine} (d : Timer)

theorem get_of_execute {i : Instruction} {e : Execution} (h : m.execute i = .ok e) :
    e.machine.timers.get d = (i.written m.registers d).getD (m.timers.get d) := by
  cases executed_of_execute h <;> cases d <;> rfl

theorem written_of_execute_error {i : Instruction} {f : Fault} (h : m.execute i = .error f)
    (r : Registers) : i.written r d = none := by
  cases i with
  | setDelay | setSound => cases h
  | _ => cases d <;> rfl

/-- What the word at the program counter writes to a timer when it is executed. -/
def written (m : Machine) : Option Byte :=
  match m.memory.fetch m.registers.pc with
  | .ok w => (Instruction.ofWord w).written m.registers d
  | .error _ => none

theorem written_of_fetch {w : Word} (h : m.memory.fetch m.registers.pc = .ok w) :
    m.written d = (Instruction.ofWord w).written m.registers d := by
  simp only [written, h]

/-- What the first `n` steps write to a timer, up to the first error. -/
def writes : Nat → Machine → List Byte
  | 0, _ => []
  | n + 1, m =>
    match m.step.result with
    | .error _ => []
    | .ok _ => (m.written d).toList ++ writes n m.step.machine

theorem get_of_step {effect : Effect} (h : m.step.result = .ok effect) :
    m.step.machine.timers.get d = (m.written d).getD (m.timers.get d) := by
  rcases step_of_ok h with ⟨w, e, hf, hx, rfl, hs⟩ | ⟨w, f, hf, hx, rfl, hs⟩
  · have hget := get_of_execute d hx
    rw [hs, written_of_fetch d hf]
    exact hget
  · -- the writes to the timers do not fault, so a fault that is passed over is none of them
    rw [hs, written_of_fetch d hf, written_of_execute_error d hx]
    rfl

/-- **The last write stands.** -/
theorem get_of_run (m : Machine) (n : Nat) :
    (m.run n).machine.timers.get d = (m.writes d n).getLast?.getD (m.timers.get d) := by
  induction n generalizing m with
  | zero => rfl
  | succ n ih =>
    cases h : m.step.result with
    | error e =>
      obtain ⟨_, _, _, hm⟩ := machine_of_step_error h
      rw [run_of_error h, hm]
      simp only [writes, h]
      rfl
    | ok effect =>
      rw [run_of_ok h]
      -- what the first step writes stands only if no later step writes
      simp only [writes, h, ih, get_of_step d h]
      cases m.written d <;> cases ht : (m.step.machine.writes d n).getLast? <;>
        simp [List.getLast?_cons, ht]

end Machine

/-! ### Ticks -/

namespace Console

/-- Ticks one after the other, each with its keys and its number of instructions. -/
def Command.ticks (ticks : List (Keypad × Nat)) : List Command :=
  ticks.map fun (keys, n) => .tick keys n

variable (d : Timer)

/-- What each of some ticks writes to a timer. -/
def writes (c : Console) : List (Keypad × Nat) → List (List Byte)
  | [] => []
  | (keys, n) :: ticks =>
    (c.machine.setKeypad keys).writes d n :: (c.tick keys n).console.writes ticks

/-- **A tick is one decrement behind its last write**, and no decrement if it fails. -/
theorem get_of_tick (c : Console) (keys : Keypad) (n : Nat) :
    ((c.tick keys n).console.machine.timers.get d).toNat =
      (((c.machine.setKeypad keys).writes d n).getLast?.getD (c.machine.timers.get d)).toNat -
        if (c.tick keys n).result.isOk then 1 else 0 := by
  have hrun : (c.runWith keys n).machine.timers.get d = _ :=
    (c.machine.setKeypad keys).get_of_run d n
  cases he : (c.runWith keys n).error with
  | some e =>
    rw [tick_of_error he]
    exact congrArg BitVec.toNat hrun
  | none =>
    rw [tick_of_ok he]
    simp only [machine_finishTick]
    exact (Timers.toNat_get_tick _ d).trans (congrArg (·.toNat - 1) hrun)

/-- What a tick in front of others does to the number of ticks that succeed. -/
theorem countP_isOk_cons (c : Console) (keys : Keypad) (n : Nat) (ticks : List (Keypad × Nat)) :
    (c.performAll (Command.ticks ((keys, n) :: ticks))).result.countP (·.isOk) =
      ((c.tick keys n).console.performAll (Command.ticks ticks)).result.countP (·.isOk) +
        if (c.tick keys n).result.isOk then 1 else 0 := by
  have hok : ((c.perform (.tick keys n)).result.isOk) = (c.tick keys n).result.isOk := by
    simp only [perform]
    cases (c.tick keys n).result <;> rfl
  rw [← hok]
  exact List.countP_cons ..

/-- A timer that nothing is written to. -/
theorem get_of_ticks_of_unwritten {c : Console} {ticks : List (Keypad × Nat)}
    (h : ∀ vs ∈ c.writes d ticks, vs = []) :
    ((c.performAll (Command.ticks ticks)).console.machine.timers.get d).toNat =
      (c.machine.timers.get d).toNat -
        (c.performAll (Command.ticks ticks)).result.countP (·.isOk) := by
  induction ticks generalizing c with
  | nil => rfl
  | cons tick ticks ih =>
    obtain ⟨keys, n⟩ := tick
    have hnone : (c.machine.setKeypad keys).writes d n = [] := h _ List.mem_cons_self
    have hfirst := get_of_tick d c keys n
    have hrest := ih fun vs hvs => h vs (List.mem_cons_of_mem _ hvs)
    rw [hnone] at hfirst
    rw [countP_isOk_cons, Nat.add_comm, Nat.sub_add_eq]
    exact hrest.trans (congrArg (· - _) hfirst)

/-- A timer that is written to in tick `j`, counted from zero, and not in the ticks behind it. -/
theorem get_of_ticks_of_written {c : Console} {ticks : List (Keypad × Nat)} {j : Nat}
    {vs : List Byte} {v : Byte} (hj : (c.writes d ticks)[j]? = some vs)
    (hv : vs.getLast? = some v) (h : ∀ ws ∈ (c.writes d ticks).drop (j + 1), ws = []) :
    ((c.performAll (Command.ticks ticks)).console.machine.timers.get d).toNat =
      v.toNat - ((c.performAll (Command.ticks ticks)).result.drop j).countP (·.isOk) := by
  induction ticks generalizing c j with
  | nil => cases hj
  | cons tick ticks ih =>
    obtain ⟨keys, n⟩ := tick
    cases j with
    | zero =>
      -- the tick that writes, and behind it only ticks that do not
      cases hj
      have hfirst := get_of_tick d c keys n
      have hrest : ((c.performAll (Command.ticks ((keys, n) :: ticks))).console.machine.timers.get
          d).toNat = _ := get_of_ticks_of_unwritten d (c := (c.tick keys n).console) h
      rw [hv] at hfirst
      rw [List.drop_zero, countP_isOk_cons, Nat.add_comm, Nat.sub_add_eq]
      exact hrest.trans (congrArg (· - _) hfirst)
    | succ j => exact ih hj h

theorem length_result_performAll (c : Console) (commands : List Command) :
    (c.performAll commands).result.length = commands.length := by
  induction commands generalizing c with
  | nil => rfl
  | cons command commands ih => exact congrArg (· + 1) (ih _)

/-- **A timer is its last value less the ticks that have succeeded since.**  Take any ticks, with
any keys and any numbers of instructions. If none of them writes to a timer, the timer ends at what
it showed before, less one for each tick that succeeds, and not below zero; if tick `j`, counted
from zero, is the last that writes to it, and `v` is the last value that it writes, then the timer
ends at `v` less one for each tick from `j` on that succeeds. A tick that fails counts for neither
timer, and what is written to one timer does not concern the other. If all of `k` ticks succeed,
then `k - j` of them do from `j` on. -/
theorem timer_of_ticks (c : Console) (ticks : List (Keypad × Nat)) :
    let reply := c.performAll (Command.ticks ticks)
    let succeeded (j : Nat) := (reply.result.drop j).countP (·.isOk)
    (∀ d, (∀ vs ∈ c.writes d ticks, vs = []) →
      (reply.console.machine.timers.get d).toNat =
        (c.machine.timers.get d).toNat - succeeded 0) ∧
    (∀ d j vs v, (c.writes d ticks)[j]? = some vs → vs.getLast? = some v →
      (∀ ws ∈ (c.writes d ticks).drop (j + 1), ws = []) →
        (reply.console.machine.timers.get d).toNat = v.toNat - succeeded j) ∧
    ((∀ answer ∈ reply.result, answer.isOk) → ∀ j, succeeded j = ticks.length - j) := by
  intro reply succeeded
  refine ⟨fun d h => get_of_ticks_of_unwritten d h, fun d j vs v hj hv h =>
    get_of_ticks_of_written d hj hv h, fun hok j => ?_⟩
  have hall : succeeded j = (reply.result.drop j).length :=
    List.countP_eq_length.2 fun answer hmem => hok answer (List.mem_of_mem_drop hmem)
  rw [hall, List.length_drop, length_result_performAll, Command.ticks, List.length_map]

/-- A machine whose program sets the delay timer. -/
def pausing : Machine :=
  .boot "" (Memory.initial.blit Memory.origin [0x60, 0x05, 0xF0, 0x15]) {} .zeros

/-- A tick that sets the delay timer to 5 and one without instructions; the sound timer was at 9
before. -/
theorem timer_of_ticks_pausing :
    let c : Console := { machine := { pausing with timers := { sound := 9 } } }
    let ticks := [(Keypad.released, 2), (.released, 0)]
    let reply := c.performAll (Command.ticks ticks)
    c.writes .delay ticks = [[5], []] ∧ c.writes .sound ticks = [[], []] ∧
      reply.result = [.ok (.ticked ⟨2, 0, 0⟩), .ok (.ticked {})] ∧
      (reply.console.machine.timers.get .delay).toNat = 3 ∧
      (reply.console.machine.timers.get .sound).toNat = 7 := by
  intro c ticks reply
  have hnew : Machine.new ⟨"", [0x60, 0x05, 0xF0, 0x15]⟩ {} = .ok (pausing, _) := rfl
  have h₀ : pausing.memory.fetch 0x200 = .ok 0x6005 :=
    (Machine.fetch_of_new hnew (k := 0) (by decide)).trans rfl
  have h₂ : pausing.memory.fetch 0x202 = .ok 0xF015 :=
    (Machine.fetch_of_new hnew (k := 2) (by decide)).trans rfl
  -- `m₀` sets register 0 to 5, `m₁` writes it to the delay timer
  obtain ⟨r, hr⟩ : ∃ r, r = { Registers.start.set 0 5 with pc := 0x202 } := ⟨_, rfl⟩
  obtain ⟨m₀, hm₀⟩ : ∃ m, m = c.machine.setKeypad .released := ⟨_, rfl⟩
  obtain ⟨m₁, hm₁⟩ : ∃ m, m = { m₀ with opcode := 0x6005, registers := r } := ⟨_, rfl⟩
  have hs₀ : m₀.step.result = .ok .none ∧ m₀.step.machine = m₁ := by
    rw [hm₁, hr, hm₀, Machine.step_of_executed (m := c.machine.setKeypad .released) rfl h₀ rfl]
    exact ⟨rfl, rfl⟩
  have hs₁ : m₁.step.result = .ok .none := by
    have hs : m₁.step = m₁.afterExecution 0xF015
        { machine := { m₁.fetched 0xF015 with timers := { delay := 5, sound := 9 } } } := by
      rw [hm₁, hr, hm₀]
      exact Machine.step_of_executed rfl h₂ rfl
    rw [hs]
    rfl
  have hticks : (c.tick .released 2).result = .ok ⟨2, 0, 0⟩ := by
    have hw : c.runWith .released 2 = m₀.run 2 := by rw [hm₀]; rfl
    have hrun : m₀.run 2 = _ := Machine.run_of_ok hs₀.1 1
    rw [hs₀.2, Machine.run_of_ok hs₁] at hrun
    rw [tick_of_ok (by rw [hw, hrun]; rfl), hw, hrun]
    rfl
  have hwrites : m₀.writes .delay 2 = [5] ∧ m₀.writes .sound 2 = [] := by
    have hw₀ (d : Timer) : m₀.written d = none := by
      rw [hm₀, Machine.written_of_fetch (m := c.machine.setKeypad .released) d h₀]
      cases d <;> rfl
    have hw₁ (d : Timer) : m₁.written d = (Instruction.ofWord 0xF015).written r d := by
      rw [hm₁, hm₀, hr]
      exact Machine.written_of_fetch d h₂
    simp only [Machine.writes, hs₀, hs₁, hw₀, hw₁, hr]
    exact ⟨rfl, rfl⟩
  have hboth (d : Timer) : c.writes d ticks = [m₀.writes d 2, []] := by
    simp only [ticks, writes, Machine.writes, hm₀]
  have hdelay : c.writes .delay ticks = [[5], []] := by rw [hboth, hwrites.1]
  have hsound : c.writes .sound ticks = [[], []] := by rw [hboth, hwrites.2]
  have hresult : reply.result = [.ok (.ticked ⟨2, 0, 0⟩), .ok (.ticked {})] := by
    have hempty (c : Console) : (c.tick .released 0).result = .ok {} := by rw [tick_of_ok rfl]; rfl
    simp only [reply, ticks, Command.ticks, List.map, performAll, perform, hticks, hempty]
    rfl
  obtain ⟨hunwritten, hwritten, hall⟩ := timer_of_ticks c ticks
  have hcount := hall (by rw [hresult]; decide)
  refine ⟨hdelay, hsound, hresult, ?_, ?_⟩
  · rw [hwritten .delay 0 [5] 5 (by rw [hdelay]; rfl) rfl (by rw [hdelay]; decide), hcount]
    rfl
  · rw [hunwritten .sound (by rw [hsound]; decide), hcount]
    rfl

end Console

end Chip8
