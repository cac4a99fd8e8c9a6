import Chip8.Machine.Run
import Chip8.Proofs.Atomicity

/-!
# What the fault policy decides

Two machines that differ in nothing but their policies are run side by side.

* `Machine.Twins` : the two machines.
* `Machine.execute_withPolicy` : no instruction asks for the policy.
* `Machine.Twins.step`, `Machine.Twins.perform` : one step, and one request.
* `Machine.Twins.performAll` : requests one after the other.
* `Machine.policies_agree` : **the policies agree up to the first fault that is passed over**, and
  at that fault the machines differ in the policy and the halt only.
-/

namespace Chip8

namespace Machine

/-- The machine under another policy. -/
def withPolicy (policy : FaultPolicy) (m : Machine) : Machine :=
  { m with config := { m.config with policy } }

variable {m : Machine} {p : FaultPolicy}

/-! ### Instructions -/

theorem execute_withPolicy (i : Instruction) :
    (m.withPolicy p).execute i = (m.execute i).map (·.over (withPolicy p)) := by
  cases i with
  | clearScreen | jump | jumpOffset | skip | setByte | addByte | setIndex | addIndex | glyph
  | random | readDelay | setDelay | setSound | unknown | combine | shift => rfl
  | readKey x =>
    simp only [execute, withPolicy]
    cases m.keypad.firstPressed <;> rfl
  | ret =>
    simp only [execute, executeReturn, withPolicy]
    cases m.registers.stack.pop <;> rfl
  | call nnn =>
    simp only [execute, executeCall, withPolicy]
    cases m.registers.stack.push m.registers.pc <;> rfl
  | draw x y n =>
    simp only [execute, executeDraw, withPolicy]
    cases m.memory.slice m.registers.index.toNat n <;> rfl
  | storeDigits x =>
    simp only [execute, storeAtIndex, withPolicy]
    cases m.memory.replace m.registers.index.toNat (m.registers.get x).decimal <;> rfl
  | store x =>
    simp only [execute, storeAtIndex, withPolicy]
    cases m.memory.replace m.registers.index.toNat (m.registers.upTo x) <;> rfl
  | load x =>
    simp only [execute, loadBlock, withPolicy]
    cases m.memory.slice m.registers.index.toNat (x + 1) <;> rfl

/-! ### Two machines side by side -/

/-- Two machines that differ in the policy only: the strict one halts on a fault, the lax one
passes over it. -/
structure Twins (strict lax : Machine) : Prop where
  /-- The strict machine halts. -/
  strict_halts : strict.config.policy = .halt
  /-- Nothing else tells the lax machine from it. -/
  lax_eq : lax = strict.withPolicy .ignore

/-- What becomes of one request on both machines, unless the lax one passes over a fault. -/
structure Agree {α : Type} (strict lax : Reply α) : Prop where
  /-- The answers are the same. -/
  result_eq : strict.result = lax.result
  /-- The same is logged. -/
  log_eq : strict.log = lax.log
  /-- The machines still differ in the policy only. -/
  twins : Twins strict.machine lax.machine

/-- What becomes of a step on which the lax machine passes over the fault `f`. -/
structure Part (f : Fault) (strict lax : Reply (Except Error Effect)) : Prop where
  /-- The strict machine answers with the same fault. -/
  result_eq : strict.result = .error (.fault f)
  /-- The lax machine goes on. -/
  lax_goes_on : lax.machine.halted = none
  /-- The strict machine halts, and has its policy; all else is the same. -/
  strict_eq : strict.machine = { lax.machine.withPolicy .halt with halted := some f }

variable {strict lax : Machine}

theorem withPolicy_fetched (w : Word) :
    (m.withPolicy p).fetched w = (m.fetched w).withPolicy p := rfl

/-- **One step of both machines.**  Either they stay twins, or the lax one passes over a fault and
they part. -/
theorem Twins.step (h : Twins strict lax) :
    ((∀ f, lax.step.result ≠ .ok (.ignored f)) ∧ Agree strict.step lax.step) ∨
      ∃ f, lax.step.result = .ok (.ignored f) ∧ Part f strict.step lax.step := by
  obtain ⟨hp, rfl⟩ := h
  -- one case split serves both machines: they have the same halt and the same memory
  cases hm : strict.halted with
  | some f =>
    left
    rw [step_of_halted hm, step_of_halted (m := strict.withPolicy .ignore) hm]
    exact ⟨by simp, rfl, rfl, hp, rfl⟩
  | none =>
    cases hf : strict.memory.fetch strict.registers.pc with
    | error e =>
      left
      rw [step_of_unfetched hm hf, step_of_unfetched (m := strict.withPolicy .ignore) hm hf]
      exact ⟨by simp [halt], rfl, rfl, hp, rfl⟩
    | ok w =>
      -- the instruction does the same on both, and only a fault asks for the policy
      have hx' : ((strict.withPolicy .ignore).fetched w).execute (.ofWord w) =
          ((strict.fetched w).execute (.ofWord w)).map (·.over (withPolicy .ignore)) := by
        rw [withPolicy_fetched, execute_withPolicy]
      cases hx : (strict.fetched w).execute (.ofWord w) with
      | ok e =>
        left
        rw [hx] at hx'
        rw [step_of_executed hm hf hx,
          step_of_executed (m := strict.withPolicy .ignore) hm hf hx']
        have hc : e.machine.config.policy = .halt := by rw [(kept_of_execute hx).config]; exact hp
        refine ⟨fun f => ?_, rfl, rfl, hc, rfl⟩
        simpa [afterExecution] using effect_ne_ignored hx' f
      | error f =>
        right
        rw [hx] at hx'
        obtain ⟨hl, hl'⟩ := step_of_ignored (m := strict.withPolicy .ignore) hm hf hx' rfl
        obtain ⟨hs, hs'⟩ := step_of_halting hm hf hx hp
        refine ⟨f, hl, hs, ?_, ?_⟩
        · rw [hl']; exact hm
        · rw [hl', hs', ← hp]; rfl

/-- One request to both machines. -/
theorem Twins.perform (h : Twins strict lax) (command : Command)
    (hno : ∀ f, (lax.perform command).result ≠ .ok (.ignored f)) :
    Agree (strict.perform command) (lax.perform command) := by
  cases command with
  | step =>
    rcases h.step with ⟨-, ha⟩ | ⟨f, hf, -⟩
    · exact ha
    · exact absurd hf (hno f)
  | setKeypad | tickTimers | setGenerator | reset =>
    obtain ⟨hp, rfl⟩ := h
    exact ⟨rfl, rfl, hp, rfl⟩
  | load rom =>
    obtain ⟨hp, rfl⟩ := h
    simp only [Machine.perform, Machine.load]
    cases imageOf rom <;> exact ⟨rfl, rfl, hp, rfl⟩

/-- Requests to both machines, one after the other. -/
theorem Twins.performAll (h : Twins strict lax) (commands : List Command)
    (hno : ∀ f, .ok (.ignored f) ∉ (lax.performAll commands).result) :
    Agree (strict.performAll commands) (lax.performAll commands) := by
  -- the twins that one request leaves behind meet the next one
  induction commands generalizing strict lax with
  | nil => exact ⟨rfl, rfl, h⟩
  | cons command commands ih =>
    have hno₁ : ∀ f, (lax.perform command).result ≠ .ok (.ignored f) := fun f hf =>
      hno f (by simp only [Machine.performAll, hf, List.mem_cons_self])
    have ha := h.perform command hno₁
    have hb := ih ha.twins fun f hf => hno f (List.mem_cons_of_mem _ hf)
    refine ⟨?_, ?_, hb.twins⟩
    · simp only [Machine.performAll, ha.result_eq, hb.result_eq]
    · simp only [Machine.performAll, ha.log_eq, hb.log_eq]

/-- **The two policies agree up to the first fault that is passed over.**  As long as the lax
machine passes over no fault, every request has the same answer on both machines and leaves them
twins; at the first such step the strict machine answers with the fault and halts on it, and the
machines differ in nothing else. -/
theorem policies_agree (h : Twins strict lax) (commands : List Command)
    (hno : ∀ f, .ok (.ignored f) ∉ (lax.performAll commands).result) :
    Agree (strict.performAll commands) (lax.performAll commands) ∧
      ∀ f, (lax.performAll commands).machine.step.result = .ok (.ignored f) →
        Part f (strict.performAll commands).machine.step
          (lax.performAll commands).machine.step := by
  have ha := h.performAll commands hno
  refine ⟨ha, fun f hf => ?_⟩
  rcases ha.twins.step with ⟨hne, -⟩ | ⟨g, hg, hpart⟩
  · exact absurd hf (hne f)
  · rw [hf] at hg
    cases hg
    exact hpart

/-- A word that is no instruction and a reset on the way to a return from no call. -/
theorem policies_agree_returning :
    let strict := { returning .halt with registers := { Registers.start with pc := 0x201 } }
    let lax := strict.withPolicy .ignore
    let commands : List Command := [.step, .reset]
    (lax.performAll commands).result = [.ok (.unsupported 0xEE00), .ok .none] ∧
      (strict.performAll commands).result = [.ok (.unsupported 0xEE00), .ok .none] ∧
      (lax.performAll commands).machine.step.result = .ok (.ignored (.stack .underflow)) ∧
      (strict.performAll commands).machine.step.result = .error (.fault (.stack .underflow)) := by
  intro strict lax commands
  have htwins : Twins strict lax := ⟨rfl, rfl⟩
  have hf : lax.memory.fetch 0x201 = .ok 0xEE00 := fetch_returning .ignore (by decide)
  have hs : lax.step = lax.afterExecution 0xEE00 _ := step_of_executed rfl hf rfl
  have hr : (lax.performAll commands).result = [.ok (.unsupported 0xEE00), .ok .none] := by
    simp only [commands, performAll, perform, hs]
    rfl
  have hm : (lax.performAll commands).machine = returning .ignore := by
    simp only [commands, performAll, perform, reset, hs]
    rfl
  have hno : ∀ f, .ok (.ignored f) ∉ (lax.performAll commands).result := by
    intro f
    rw [hr]
    simp
  have hl : (lax.performAll commands).machine.step.result = .ok (.ignored (.stack .underflow)) := by
    rw [hm]
    exact (step_of_ignored rfl (fetch_returning .ignore (by decide)) rfl rfl).1
  obtain ⟨ha, hpart⟩ := policies_agree htwins commands hno
  exact ⟨hr, ha.result_eq.trans hr, hl, (hpart _ hl).result_eq⟩

end Machine

end Chip8
