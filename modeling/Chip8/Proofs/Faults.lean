import Chip8.Proofs.Atomicity
import Chip8.Proofs.Decoding

/-!
# When a step faults

Whether a step faults, and how, is told beforehand: by the program counter, the word it points at,
the depth of the stack and the index.

* `Instruction.reach` : the cells from the index on that an instruction needs.
* `Machine.fault?` : the fault that an instruction runs into.
* `Machine.execute_eq_error_iff` : **an instruction faults exactly as told.**
* `Machine.result_of_fetch` : the answer of a step whose word was fetched.
* `Machine.Executes`, `Machine.ExecutesAny` : a step executes a word, or one of some rows.
* `Machine.Meets` : a step runs into a fault while it executes its instruction.
* `Machine.step_faults_iff` : **a step faults exactly when it must, and with the right fault.**
-/

namespace Chip8

/-! ### What can be refused -/

namespace Memory

variable {m : Memory} {a n : Nat} {bs : List Byte} {e : MemoryError}

theorem slice_eq_error_iff :
    m.slice a n = .error e ↔ size < a + n ∧ e = .outOfBounds (max a size) := by
  unfold slice
  split
  · simp only [reduceCtorEq, false_iff]
    omega
  · simp only [Except.error.injEq, eq_comm (a := e), iff_and_self]
    omega

theorem replace_eq_error_iff :
    m.replace a bs = .error e ↔ size < a + bs.length ∧ e = .outOfBounds (max a size) := by
  unfold replace
  split
  · simp only [reduceCtorEq, false_iff]
    omega
  · simp only [Except.error.injEq, eq_comm (a := e), iff_and_self]
    omega

theorem fetch_of_le {p : Nat} (h : p ≤ 0xFFE) :
    m.fetch p = .ok (.ofBytes (m.cell p) (m.cell (p + 1))) := by
  have hp : p + 1 < size := by simp only [size]; omega
  rw [fetch_eq, dif_pos hp, getElem_cells, getElem_cells]

theorem fetch_eq_error_iff {p : Nat} :
    m.fetch p = .error e ↔ 0xFFE < p ∧ e = .outOfBounds (max p size) := by
  rcases Nat.lt_or_ge 0xFFE p with hp | hp
  · rw [fetch_eq, dif_neg (by simp only [size]; omega)]
    simp [hp, eq_comm]
  · simp [fetch_of_le hp, Nat.not_lt_of_le hp]

end Memory

namespace CallStack

variable {s : CallStack}

theorem toList_eq_nil_iff : s.toList = [] ↔ s = empty := by
  obtain ⟨entries, h⟩ := s
  simp [toList, empty]

theorem length_toList (s : CallStack) : s.toList.length = s.depth := List.length_reverse

end CallStack

/-- The number of cells from the index on that an instruction reads or writes. -/
def Instruction.reach : Instruction → Option Nat
  | .draw _ _ n => some n
  | .storeDigits _ => some 3
  | .store x | .load x => some (x + 1)
  | _ => none

/-- Which words make an instruction that needs cells from the index on, and how many. -/
theorem Instruction.reach_ofWord_iff {w : Word} {n : Nat} :
    (ofWord w).reach = some n ↔
      w.fits "DXYN" = true ∧ n = w.digit 0 ∨ w.fits "FX33" = true ∧ n = 3 ∨
        (w.fits "FX55" = true ∨ w.fits "FX65" = true) ∧ n = w.digit 2 + 1 := by
  have hdraw : w.fits "DXYN" = true → (ofWord w).reach = some (w.digit 0) := by
    intro h
    simp [Word.fits, Pattern.admits, Hex.value] at h
    simp [ofWord, ofFields, Fields.family_ofWord, Fields.n_ofWord, h, reach]
  have hdigits : w.fits "FX33" = true → (ofWord w).reach = some 3 := by
    intro h
    simp [Word.fits, Pattern.admits, Hex.value] at h
    simp [ofWord, ofFields, ofDevices, Fields.family_ofWord, Fields.nn_ofWord, h, reach]
  have hstore : w.fits "FX55" = true → (ofWord w).reach = some (w.digit 2 + 1) := by
    intro h
    simp [Word.fits, Pattern.admits, Hex.value] at h
    simp [ofWord, ofFields, ofDevices, Fields.family_ofWord, Fields.nn_ofWord, Fields.x_ofWord, h,
      reach]
  have hload : w.fits "FX65" = true → (ofWord w).reach = some (w.digit 2 + 1) := by
    intro h
    simp [Word.fits, Pattern.admits, Hex.value] at h
    simp [ofWord, ofFields, ofDevices, Fields.family_ofWord, Fields.nn_ofWord, Fields.x_ofWord, h,
      reach]
  constructor
  · intro h
    -- only four instructions have a reach, and each of them stands for a row
    cases hi : ofWord w with
    | draw =>
      have hfits : w.fits "DXYN" = true := fits_of_pattern (by rw [hi]; rfl)
      rw [hdraw hfits] at h
      exact .inl ⟨hfits, (Option.some.inj h).symm⟩
    | storeDigits =>
      have hfits : w.fits "FX33" = true := fits_of_pattern (by rw [hi]; rfl)
      rw [hdigits hfits] at h
      exact .inr (.inl ⟨hfits, (Option.some.inj h).symm⟩)
    | store =>
      have hfits : w.fits "FX55" = true := fits_of_pattern (by rw [hi]; rfl)
      rw [hstore hfits] at h
      exact .inr (.inr ⟨.inl hfits, (Option.some.inj h).symm⟩)
    | load =>
      have hfits : w.fits "FX65" = true := fits_of_pattern (by rw [hi]; rfl)
      rw [hload hfits] at h
      exact .inr (.inr ⟨.inr hfits, (Option.some.inj h).symm⟩)
    | _ => rw [hi] at h; cases h
  · rintro (⟨hfits, rfl⟩ | ⟨hfits, rfl⟩ | ⟨hfits | hfits, rfl⟩)
    · exact hdraw hfits
    · exact hdigits hfits
    · exact hstore hfits
    · exact hload hfits

/-- The answer of a step whose instruction ran into a fault. -/
def FaultPolicy.answer : FaultPolicy → Fault → Except Error Effect
  | .halt, f => .error (.fault f)
  | .ignore, f => .ok (.ignored f)

namespace Machine

/-- The fault of an instruction that needs `n` cells from the index on. -/
def outOfReach (m : Machine) (n : Nat) : Option Fault :=
  if Memory.size < m.registers.index.toNat + n then some (.memory (.outOfBounds Memory.size))
  else none

/-- The fault that an instruction runs into. -/
def fault? (m : Machine) (i : Instruction) : Option Fault :=
  match i with
  | .ret => if m.registers.stack = .empty then some (.stack .underflow) else none
  | .call _ =>
    if m.registers.stack.depth = CallStack.capacity then some (.stack .overflow) else none
  | i => i.reach.bind m.outOfReach

variable {m : Machine} {f : Fault} {i : Instruction} {w : Word}

/-! ### Instructions -/

theorem outOfReach_eq_some_iff {n : Nat} :
    m.outOfReach n = some f ↔
      Memory.size < m.registers.index.toNat + n ∧ f = .memory (.outOfBounds Memory.size) := by
  unfold outOfReach
  split <;> simp [*, eq_comm]

/-- The index is inside of memory, so that the first cell which is missing is the first one behind
the end. -/
theorem max_index (m : Machine) : max m.registers.index.toNat Memory.size = Memory.size :=
  Nat.max_eq_right (Nat.le_of_lt m.registers.index.isLt)

theorem storeAtIndex_eq_error_iff {bs : List Byte} :
    m.storeAtIndex bs = .error f ↔ m.outOfReach bs.length = some f := by
  have hstore : m.storeAtIndex bs = .error f ↔
      ∃ e, m.memory.replace m.registers.index.toNat bs = .error e ∧ f = .memory e := by
    unfold storeAtIndex
    split <;> simp [*, eq_comm]
  simp [hstore, Memory.replace_eq_error_iff, max_index, outOfReach_eq_some_iff, and_assoc]

theorem map_eq_error_iff {α β : Type} {x : Except Fault α} {g : α → β} :
    x.map g = .error f ↔ x = .error f := by
  cases x <;> simp [Except.map]

theorem length_upTo (r : Registers) (x : Nibble) : (r.upTo x).length = x + 1 := by
  have hx := x.isLt
  simp only [Registers.upTo, List.length_take, Vector.length_toList, Registers.count]
  omega

/-- **An instruction faults exactly as told.** -/
theorem execute_eq_error_iff : m.execute i = .error f ↔ m.fault? i = some f := by
  cases i with
  | ret =>
    have hret : m.executeReturn = .error f ↔
        ∃ e, m.registers.stack.pop = .error e ∧ f = .stack e := by
      unfold executeReturn
      split <;> simp [*, eq_comm]
    simp [execute, fault?, hret, CallStack.pop_eq_error_iff, and_assoc, eq_comm (a := f)]
  | call nnn =>
    have hcall : m.executeCall nnn = .error f ↔
        ∃ e, m.registers.stack.push m.registers.pc = .error e ∧ f = .stack e := by
      unfold executeCall
      split <;> simp [*, eq_comm]
    simp [execute, fault?, hcall, CallStack.push_eq_error_iff, and_assoc, eq_comm (a := f)]
  | draw x y n =>
    have hdraw : m.executeDraw x y n = .error f ↔
        ∃ e, m.memory.slice m.registers.index.toNat n = .error e ∧ f = .memory e := by
      unfold executeDraw
      split <;> simp [*, eq_comm]
    simp [execute, fault?, Instruction.reach, hdraw, Memory.slice_eq_error_iff, max_index,
      outOfReach_eq_some_iff, and_assoc]
  | load x =>
    have hload : m.loadBlock x = .error f ↔
        ∃ e, m.memory.slice m.registers.index.toNat (x + 1) = .error e ∧ f = .memory e := by
      unfold loadBlock
      split <;> simp [*, eq_comm]
    simp [execute, map_eq_error_iff, fault?, Instruction.reach, hload, Memory.slice_eq_error_iff,
      max_index, outOfReach_eq_some_iff, and_assoc]
  | storeDigits x =>
    simp only [execute, map_eq_error_iff, storeAtIndex_eq_error_iff]
    rfl
  | store x =>
    simp only [execute, map_eq_error_iff, storeAtIndex_eq_error_iff, length_upTo]
    rfl
  | readKey x =>
    simp only [execute, fault?, Instruction.reach]
    cases m.keypad.firstPressed <;> simp
  | _ => simp [execute, fault?, Instruction.reach]

theorem exists_execute_eq_ok_iff : (∃ e, m.execute i = .ok e) ↔ m.fault? i = none := by
  rw [Option.eq_none_iff_forall_ne_some]
  constructor
  · rintro ⟨e, he⟩ f hfault
    rw [execute_eq_error_iff.2 hfault] at he
    cases he
  · intro h
    cases hx : m.execute i with
    | error f => exact absurd (execute_eq_error_iff.1 hx) (h f)
    | ok e => exact ⟨e, rfl⟩

/-- The fetch changes nothing that a fault depends on. -/
theorem fault?_fetched : (m.fetched w).fault? i = m.fault? i := by
  cases i <;> rfl

/-! ### Steps -/

/-- **The answer of a step whose word was fetched.** -/
theorem result_of_fetch (hm : m.halted = none) (hf : m.memory.fetch m.registers.pc = .ok w) :
    m.step.result =
      match m.fault? (.ofWord w) with
      | some f => m.config.policy.answer f
      | none => .ok (Instruction.ofWord w).effect := by
  rw [← fault?_fetched (w := w)]
  cases hx : (m.fetched w).execute (.ofWord w) with
  | error f =>
    rw [execute_eq_error_iff.1 hx]
    cases hp : m.config.policy with
    | halt => exact (step_of_halting hm hf hx hp).1
    | ignore => exact (step_of_ignored hm hf hx hp).1
  | ok e =>
    rw [exists_execute_eq_ok_iff.1 ⟨e, hx⟩, step_of_executed hm hf hx, ← effect_of_execute hx]
    rfl

/-- The next step executes the word `w`: the machine runs, `w` lies at its counter, and the
instruction does not fault. -/
structure Executes (m : Machine) (w : Word) : Prop where
  running : m.halted = none
  fetched : m.memory.fetch m.registers.pc = .ok w
  faultless : m.fault? (.ofWord w) = none

/-- The next step executes a word of one of the rows. -/
def ExecutesAny (m : Machine) (rows : List String) : Prop :=
  ∃ w, m.Executes w ∧ w.fitsAny rows = true

theorem executes_of_execute {e : Execution} (hm : m.halted = none)
    (hf : m.memory.fetch m.registers.pc = .ok w)
    (hx : (m.fetched w).execute (.ofWord w) = .ok e) : m.Executes w :=
  ⟨hm, hf, fault?_fetched.symm.trans (exists_execute_eq_ok_iff.1 ⟨e, hx⟩)⟩

/-- A word that is executed leaves its instruction's end behind. -/
theorem Executes.step_eq (h : m.Executes w) :
    ∃ e, (m.fetched w).execute (.ofWord w) = .ok e ∧ m.step = m.afterExecution w e := by
  obtain ⟨e, hx⟩ := exists_execute_eq_ok_iff.2 (fault?_fetched.trans h.faultless)
  exact ⟨e, hx, step_of_executed h.running h.fetched hx⟩

theorem step_of_fault? (hm : m.halted = none) (hf : m.memory.fetch m.registers.pc = .ok w)
    (hfault : m.fault? (.ofWord w) = some f) : m.step = m.afterFault w f :=
  step_of_faulted hm hf (execute_eq_error_iff.2 (fault?_fetched.trans hfault))

/-- The big-endian word at the program counter. -/
def word (m : Machine) : Word :=
  .ofBytes (m.memory.cell m.registers.pc) (m.memory.cell (m.registers.pc + 1))

/-- The step runs into the fault `f` while it executes its instruction: it answers what the policy
makes of `f`. -/
def Meets (m : Machine) (f : Fault) : Prop := m.step.result = m.config.policy.answer f

/-- A step that fetches a word says so first. -/
theorem log_of_fetch (hm : m.halted = none) (hf : m.memory.fetch m.registers.pc = .ok w) :
    ∃ log, m.step.log = .fetched m.registers.pc w (.ofWord w) :: log := by
  cases hx : (m.fetched w).execute (.ofWord w) with
  | error f =>
    rw [step_of_faulted hm hf hx]
    exact ⟨_, rfl⟩
  | ok e =>
    rw [step_of_executed hm hf hx]
    exact ⟨_, rfl⟩

theorem result_of_word (hm : m.halted = none) (hp : m.registers.pc ≤ 0xFFE) :
    m.step.result =
      match m.fault? (.ofWord m.word) with
      | some f => m.config.policy.answer f
      | none => .ok (Instruction.ofWord m.word).effect :=
  result_of_fetch hm (Memory.fetch_of_le hp)

theorem meets_iff (hm : m.halted = none) (hp : m.registers.pc ≤ 0xFFE) :
    m.Meets f ↔ m.fault? (.ofWord m.word) = some f := by
  rw [Meets, result_of_word hm hp]
  cases m.fault? (.ofWord m.word) with
  | some g => cases m.config.policy <;> simp [FaultPolicy.answer]
  | none =>
    -- no instruction says of itself that it was passed over
    cases m.config.policy <;> cases Instruction.ofWord m.word <;>
      simp [FaultPolicy.answer, Instruction.effect]

/-- The answers other than a fault that was passed over are those of instructions without a
fault. -/
theorem result_eq_ok_iff (hm : m.halted = none) (hp : m.registers.pc ≤ 0xFFE) {effect : Effect}
    (hne : ∀ f, effect ≠ .ignored f) :
    m.step.result = .ok effect ↔
      m.fault? (.ofWord m.word) = none ∧ (Instruction.ofWord m.word).effect = effect := by
  rw [result_of_word hm hp]
  cases m.fault? (.ofWord m.word) with
  | some g =>
    have hg := hne g
    cases m.config.policy <;> simp [FaultPolicy.answer, Ne.symm hg]
  | none => simp

/-! ### Which fault it is -/

/-- There are three faults that an instruction can run into. -/
theorem fault_mem (h : m.fault? i = some f) :
    f = .stack .underflow ∨ f = .stack .overflow ∨ f = .memory (.outOfBounds Memory.size) := by
  unfold fault? at h
  split at h
  · obtain ⟨-, hf⟩ := Option.ite_none_right_eq_some.1 h
    exact .inl (Option.some.inj hf).symm
  · obtain ⟨-, hf⟩ := Option.ite_none_right_eq_some.1 h
    exact .inr (.inl (Option.some.inj hf).symm)
  · obtain ⟨n, -, hn⟩ := Option.bind_eq_some_iff.1 h
    exact .inr (.inr (outOfReach_eq_some_iff.1 hn).2)

theorem fault?_eq_underflow_iff :
    m.fault? i = some (.stack .underflow) ↔ i = .ret ∧ m.registers.stack = .empty := by
  cases i <;> simp [fault?, Instruction.reach, outOfReach_eq_some_iff]

theorem fault?_eq_overflow_iff :
    m.fault? i = some (.stack .overflow) ↔
      (∃ nnn, i = .call nnn) ∧ m.registers.stack.depth = CallStack.capacity := by
  cases i <;> simp [fault?, Instruction.reach, outOfReach_eq_some_iff]

theorem fault?_eq_memory_iff {e : MemoryError} :
    m.fault? i = some (.memory e) ↔ e = .outOfBounds Memory.size ∧
      ∃ n, i.reach = some n ∧ Memory.size < m.registers.index.toNat + n := by
  cases i <;> simp [fault?, Instruction.reach, outOfReach_eq_some_iff, and_comm]

theorem fault?_eq_none_of_reach {n : Nat} (h : i.reach = some n) :
    m.fault? i = none ↔ ¬ Memory.size < m.registers.index.toNat + n := by
  have hfault : m.fault? i = m.outOfReach n := by
    cases i <;> cases h <;> rfl
  rw [hfault, outOfReach]
  split <;> simp [*]

theorem effect_eq_cleared_iff : i.effect = .cleared ↔ i = .clearScreen := by
  cases i <;> simp [Instruction.effect]

theorem effect_eq_drawn_iff : i.effect = .drawn ↔ ∃ x y n, i = .draw x y n := by
  cases i <;> simp [Instruction.effect]

theorem effect_eq_unsupported_iff : i.effect = .unsupported w ↔ i = .unknown w := by
  cases i <;> simp [Instruction.effect]

/-- **A step faults exactly when it must, and with the right fault.**  A fetch fails exactly if the
counter is past the last word; the machine then halts as it is. Otherwise the word at the counter,
the stack and the index tell the answer: a return from no call underflows, a call in the depth of
sixteen overflows, and what reaches past the last cell of memory is out of bounds at the first
address behind it; the policy decides what becomes of these faults. A word that fits no row of the
instruction table is passed over under either policy. There is nothing else that a step answers but
that it cleared the screen, that it drew, or that there is nothing to tell. -/
theorem step_faults_iff (m : Machine) (hm : m.halted = none) :
    let p := m.registers.pc
    let i := m.registers.index.toNat
    let w := m.word
    (m.step = m.halt (.memory (.outOfBounds (max p 0x1000))) ↔ 0xFFE < p) ∧
      (p ≤ 0xFFE →
        (m.Meets (.stack .underflow) ↔ w = 0x00EE ∧ m.registers.stack.toList = []) ∧
        (m.Meets (.stack .overflow) ↔
          w.fits "2NNN" = true ∧ m.registers.stack.toList.length = 16) ∧
        (m.Meets (.memory (.outOfBounds 0x1000)) ↔
          w.fits "DXYN" = true ∧ 0x1000 < i + w.digit 0 ∨
          w.fits "FX33" = true ∧ 0x1000 < i + 3 ∨
          (w.fits "FX55" = true ∨ w.fits "FX65" = true) ∧ 0x1000 < i + w.digit 2 + 1) ∧
        (m.step.result = .ok (.unsupported w) ↔ ∀ p ∈ Instruction.patterns, w.fits p = false) ∧
        (m.step.result = .ok .cleared ↔ w = 0x00E0) ∧
        (m.step.result = .ok .drawn ↔ w.fits "DXYN" = true ∧ i + w.digit 0 ≤ 0x1000) ∧
        (m.Meets (.stack .underflow) ∨ m.Meets (.stack .overflow) ∨
          m.Meets (.memory (.outOfBounds 0x1000)) ∨ m.step.result = .ok (.unsupported w) ∨
          m.step.result = .ok .cleared ∨ m.step.result = .ok .drawn ∨
          m.step.result = .ok .none)) := by
  intro p i w
  refine ⟨?_, fun hp => ⟨?_, ?_, ?_, ?_, ?_, ?_, ?_⟩⟩
  · constructor
    · intro h
      apply Nat.lt_of_not_le
      intro hp
      obtain ⟨log, hlog⟩ := log_of_fetch hm (Memory.fetch_of_le hp)
      rw [h] at hlog
      cases hlog
    · intro hp
      exact step_of_unfetched hm (Memory.fetch_eq_error_iff.2 ⟨hp, rfl⟩)
  · rw [meets_iff hm hp, fault?_eq_underflow_iff, Instruction.ofWord_eq_ret_iff,
      CallStack.toList_eq_nil_iff]
  · rw [meets_iff hm hp, fault?_eq_overflow_iff, Instruction.ofWord_eq_call_iff,
      CallStack.length_toList]
    rfl
  · rw [meets_iff hm hp, fault?_eq_memory_iff]
    simp only [Instruction.reach_ofWord_iff]
    constructor
    · rintro ⟨-, n, ⟨hfits, rfl⟩ | ⟨hfits, rfl⟩ | ⟨hfits, rfl⟩, hn⟩
      · exact .inl ⟨hfits, hn⟩
      · exact .inr (.inl ⟨hfits, hn⟩)
      · exact .inr (.inr ⟨hfits, hn⟩)
    · rintro (⟨hfits, hn⟩ | ⟨hfits, hn⟩ | ⟨hfits, hn⟩)
      · exact ⟨rfl, _, .inl ⟨hfits, rfl⟩, hn⟩
      · exact ⟨rfl, _, .inr (.inl ⟨hfits, rfl⟩), hn⟩
      · exact ⟨rfl, _, .inr (.inr ⟨hfits, rfl⟩), hn⟩
  · rw [result_eq_ok_iff hm hp (by simp), effect_eq_unsupported_iff,
      ← Instruction.ofWord_eq_unknown_iff, and_iff_right_iff_imp]
    intro h
    rw [h]
    rfl
  · rw [result_eq_ok_iff hm hp (by simp), effect_eq_cleared_iff,
      ← Instruction.ofWord_eq_clearScreen_iff, and_iff_right_iff_imp]
    intro h
    rw [h]
    rfl
  · rw [result_eq_ok_iff hm hp (by simp), effect_eq_drawn_iff, Instruction.ofWord_eq_draw_iff,
      and_comm, and_congr_right_iff]
    intro hfits
    rw [fault?_eq_none_of_reach (Instruction.reach_ofWord_iff.2 (.inl ⟨hfits, rfl⟩))]
    exact Nat.not_lt
  · rw [meets_iff hm hp, meets_iff hm hp, meets_iff hm hp, result_of_word hm hp]
    cases hf : m.fault? (.ofWord m.word) with
    | some f =>
      rcases fault_mem hf with rfl | rfl | rfl <;> simp [Memory.size]
    | none =>
      cases hi : Instruction.ofWord m.word with
      | unknown v =>
        rw [Instruction.eq_of_ofWord_unknown hi]
        exact .inr (.inr (.inr (.inl rfl)))
      | _ => simp [Instruction.effect]

/-- A machine whose every word draws five rows. -/
def drawing (index : Address) : Machine :=
  { boot "" ⟨.replicate Memory.size 0xD5⟩ {} .zeros with
    registers := { Registers.start with index } }

theorem word_drawing (index : Address) : (drawing index).word = 0xD5D5 := by
  have hcell : ∀ {a}, a < Memory.size → (drawing index).memory.cell a = 0xD5 := by
    intro a ha
    simp [drawing, boot, Memory.cell, ha]
  have hpc : (drawing index).registers.pc = 0x200 := rfl
  rw [word, hpc, hcell (by decide), hcell (by decide)]
  rfl

/-- The last five cells of memory can be drawn, and from the cell behind their first one on there
are too few. -/
theorem step_faults_iff_drawing :
    (drawing 0xFFB).halted = none ∧ (drawing 0xFFB).step.result = .ok .drawn ∧
      (drawing 0xFFC).halted = none ∧
      (drawing 0xFFC).step.result = .error (.fault (.memory (.outOfBounds 0x1000))) := by
  have hword : ∀ index, (drawing index).word.fits "DXYN" = true := by
    intro index
    rw [word_drawing]
    decide
  have hrows : ∀ index, (drawing index).word.digit 0 = 5 := by
    intro index
    rw [word_drawing]
    rfl
  obtain ⟨-, -, -, -, -, hdrawn, -⟩ := (step_faults_iff (drawing 0xFFB) rfl).2 (by decide)
  obtain ⟨-, -, hbounds, -⟩ := (step_faults_iff (drawing 0xFFC) rfl).2 (by decide)
  refine ⟨rfl, hdrawn.2 ⟨hword _, ?_⟩, rfl, hbounds.2 (.inl ⟨hword _, ?_⟩)⟩
  · rw [hrows]
    decide
  · rw [hrows]
    decide

end Machine

end Chip8
