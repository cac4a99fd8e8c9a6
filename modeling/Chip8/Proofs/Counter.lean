import Chip8.Proofs.Faults

/-!
# Where a step leads

A fetch moves the counter behind the word, and the instruction is applied on top of that: it goes on
from there, passes over one more word, or leads to an address of its own. An instruction that faults
leads nowhere.

* `Word.turns` : the rows of the words that can lead elsewhere than behind themselves.
* `Machine.flow`, `Machine.flow_of_execute` : where an instruction leads, told beforehand.
* `Machine.pc_of_executes`, `Machine.pc_of_meets` : the counter after a step, without a fault and
  with one.
* `Condition.opposite`, `Machine.Skips`, `Machine.skips_iff_not_skips` : of two skips that ask
  opposite questions, exactly one skips.
* `Machine.counter_follows_table` : **the counter moves as the instruction table says**, after every
  step that has a word to fetch.
-/

namespace Chip8

/-! ### Rows of the table -/

/-- The rows of the words that can lead elsewhere than behind themselves, each with the instruction
that `w` stands for if it fits. -/
def Word.turns (w : Word) : List (String × Instruction) :=
  [("00EE", .ret), ("1NNN", .jump w.nnn), ("2NNN", .call w.nnn), ("BNNN", .jumpOffset w.nnn),
    ("3XNN", .skip (.holds w.x w.low)), ("4XNN", .skip (.lacks w.x w.low)),
    ("5XY0", .skip (.equal w.x w.y)), ("9XY0", .skip (.differ w.x w.y)),
    ("EX9E", .skip (.pressed w.x)), ("EXA1", .skip (.released w.x))]

namespace Instruction

/-- The rows of these words. -/
def turningRows : List String :=
  ["00EE", "1NNN", "2NNN", "BNNN", "3XNN", "4XNN", "5XY0", "9XY0", "EX9E", "EXA1"]

theorem ofWord_of_turn {w : Word} {row : String} {i : Instruction} (hturn : (row, i) ∈ w.turns)
    (hfits : w.fits row = true) : ofWord w = i := by
  have hall : ∀ turn ∈ w.turns, w.fits turn.1 = true → ofWord w = turn.2 := by
    simp only [Word.turns, List.forall_mem_cons, List.not_mem_nil, false_implies, implies_true,
      and_true]
    -- one goal for each row: its digits choose the branches of the decoder
    and_intros
    all_goals
      intro h
      simp [Word.fits, Pattern.admits, Hex.value] at h
      simp [ofWord, ofFields, ofSystem, ofKeys, Fields.family_ofWord, Fields.n_ofWord,
        Fields.toNat_word_ofWord, Fields.x_eq, Fields.y_eq, Fields.nn_eq, Fields.nnn_eq,
        Word.toNat_low, h]
  exact hall (row, i) hturn hfits

end Instruction

/-! ### Opposite questions -/

namespace Condition

/-- The condition that holds exactly where this one does not. -/
def opposite : Condition → Condition
  | holds x nn => lacks x nn
  | lacks x nn => holds x nn
  | equal x y => differ x y
  | differ x y => equal x y
  | pressed x => released x
  | released x => pressed x

theorem test_opposite (c : Condition) (r : Registers) (p : Keypad) :
    c.opposite.test r p = !c.test r p := by
  cases c with
  | lacks | differ | released => exact (Bool.not_not _).symm
  | _ => rfl

end Condition

/-- A number without a key is never pressed. -/
theorem Keypad.isPressed_of_lt {p : Keypad} {k : Nat} (h : 15 < k) : p.isPressed k = false := by
  rw [isPressed, Key.ofNat?, dif_neg (Nat.not_lt_of_le h)]
  rfl

namespace Machine

variable {m : Machine} {w : Word}

/-! ### Instructions -/

/-- Where an instruction leads that does not fault. -/
def flow (m : Machine) : Instruction → Flow
  | .ret => m.registers.stack.toList.getLast?.elim .next .jump
  | .jump nnn | .call nnn => .jump nnn.toNat
  | .jumpOffset nnn => .jump (nnn.toNat + (m.registers.get Registers.offsetRegister).toNat)
  | .skip c => .skipIf (c.test m.registers m.keypad)
  | _ => .next

theorem flow_of_execute {i : Instruction} {e : Execution} (h : m.execute i = .ok e) :
    e.flow = m.flow i := by
  cases executed_of_execute h with
  | ret hp =>
    rw [flow, CallStack.toList_pop hp, List.getLast?_concat]
    rfl
  | _ => rfl

/-- The fetch changes nothing that decides where an instruction leads. -/
theorem flow_fetched (i : Instruction) : (m.fetched w).flow i = m.flow i := by
  cases i <;> rfl

/-- An instruction that stands for none of the turning rows goes on to the next one. -/
theorem flow_eq_next {i : Instruction} (h : ¬ i.InRows Instruction.turningRows) :
    m.flow i = .next := by
  have hrow {p : String} (hp : i.pattern = some p) : p ∉ Instruction.turningRows :=
    fun hmem => h ⟨p, hmem, hp⟩
  cases i with
  | ret | jump | call | jumpOffset => exact absurd (by decide) (hrow rfl)
  | skip c => cases c <;> exact absurd (by decide) (hrow rfl)
  | _ => rfl

/-! ### Steps -/

/-- **The counter after a word that is executed.** -/
theorem pc_of_executes (h : m.Executes w) :
    m.step.machine.registers.pc = (m.flow (.ofWord w)).apply (m.registers.pc + 2) := by
  obtain ⟨e, hx, hstep⟩ := h.step_eq
  rw [hstep, ← flow_fetched (w := w), ← flow_of_execute hx]
  simp only [afterExecution, registers_withRegisters, Registers.follow, pc_of_execute hx]
  rfl

section Fetched

variable (hm : m.halted = none) (hf : m.memory.fetch m.registers.pc = .ok w)
include hm hf

theorem pc_of_fault? {f : Fault} (hfault : m.fault? (.ofWord w) = some f) :
    m.step.machine.registers.pc = m.registers.pc + 2 := by
  rw [step_of_fault? hm hf hfault]
  simp only [afterFault, settle_eq]
  split <;> rfl

theorem pc_of_faultless {i : Instruction} (hi : Instruction.ofWord w = i)
    (hfault : m.fault? i = none) :
    m.step.machine.registers.pc = (m.flow i).apply (m.registers.pc + 2) := by
  rw [← hi]
  exact pc_of_executes ⟨hm, hf, hi ▸ hfault⟩

theorem pc_of_skip {c : Condition} (hc : Instruction.ofWord w = .skip c) :
    m.step.machine.registers.pc =
      if c.test m.registers m.keypad = true then m.registers.pc + 4 else m.registers.pc + 2 := by
  rw [pc_of_faultless hm hf hc rfl, flow, Flow.skipIf]
  split <;> rfl

/-- **The counter after a skip**, by the row of the word that asks. -/
theorem pc_of_skip_row {row : String} {c : Condition} (hturn : (row, .skip c) ∈ w.turns)
    (hfits : w.fits row = true) :
    m.step.machine.registers.pc =
      if c.test m.registers m.keypad = true then m.registers.pc + 4 else m.registers.pc + 2 :=
  pc_of_skip hm hf (Instruction.ofWord_of_turn hturn hfits)

theorem pc_of_not_turning (h : w.fitsAny Instruction.turningRows = false) :
    m.step.machine.registers.pc = m.registers.pc + 2 := by
  have hrows : ¬ (Instruction.ofWord w).InRows Instruction.turningRows := by
    intro hrows
    rw [Instruction.fitsAny_of_inRows hrows] at h
    cases h
  cases hfault : m.fault? (.ofWord w) with
  | some f => exact pc_of_fault? hm hf hfault
  | none =>
    rw [pc_of_executes ⟨hm, hf, hfault⟩, flow_eq_next hrows]
    rfl

end Fetched

section Met

variable (hm : m.halted = none) (hp : m.registers.pc ≤ 0xFFE)
include hm hp

/-- **The counter after a fault**, under either policy. -/
theorem pc_of_meets {f : Fault} (h : m.Meets f) :
    m.step.machine.registers.pc = m.registers.pc + 2 :=
  pc_of_fault? hm (Memory.fetch_of_le hp) ((meets_iff hm hp).1 h)

theorem executes_of_not_meets (h : ∀ f, ¬ m.Meets f) : m.Executes m.word :=
  ⟨hm, Memory.fetch_of_le hp, Option.eq_none_iff_forall_ne_some.2 fun f hf =>
    h f ((meets_iff hm hp).2 hf)⟩

/-- A return that succeeds leads to the latest address on the stack, and takes it away. -/
theorem stack_of_ret (hw : m.word = 0x00EE) (h : ∀ f, ¬ m.Meets f) :
    m.registers.stack.toList =
      m.step.machine.registers.stack.toList ++ [m.step.machine.registers.pc] := by
  obtain ⟨e, hx, hstep⟩ := (executes_of_not_meets hm hp h).step_eq
  rw [Instruction.ofWord_eq_ret_iff.2 hw] at hx
  rw [hstep]
  cases executed_of_execute hx with
  | ret hpop => exact CallStack.toList_pop hpop

end Met

/-! ### Two skips -/

/-- The next step passes over the word behind the one that it fetches. -/
def Skips (m : Machine) : Prop := m.step.machine.registers.pc = m.registers.pc + 4

theorem skips_iff {c : Condition} (hm : m.halted = none)
    (hf : m.memory.fetch m.registers.pc = .ok w) (hc : Instruction.ofWord w = .skip c) :
    m.Skips ↔ c.test m.registers m.keypad = true := by
  rw [Skips, pc_of_skip hm hf hc]
  split <;> simp [*]

/-- Where one memory asks a question and another one the opposite, exactly one of them skips. -/
theorem skips_iff_not_skips {left right : Memory} {u v : Word} {c : Condition}
    (hm : m.halted = none) (hleft : left.fetch m.registers.pc = .ok u)
    (hright : right.fetch m.registers.pc = .ok v) (hu : Instruction.ofWord u = .skip c)
    (hv : Instruction.ofWord v = .skip c.opposite) :
    { m with memory := left }.Skips ↔ ¬ { m with memory := right }.Skips := by
  rw [skips_iff (m := { m with memory := left }) hm hleft hu,
    skips_iff (m := { m with memory := right }) hm hright hv, Condition.test_opposite,
    Bool.not_eq_true', Bool.not_eq_false]

/-- **The counter moves as the instruction table says.**  Take any running machine whose counter is
at a word. A `1NNN`, and a `2NNN` that does not fault, lead to `NNN`, and a `BNNN` to `NNN` plus the
first register, which can be behind the end of memory. A `00EE` that does not fault leads to the
address that it takes off the stack. A skip passes over a word if its condition holds before the
step. After all other words, and after every fault under either policy, the counter is behind the
fetched word. Where two memories hold opposite skips with the same operands at the counter, exactly
one of them skips; for keys also if there is no such key, and then it is the `EXA1`. -/
theorem counter_follows_table (m : Machine) (hm : m.halted = none)
    (hp : m.registers.pc ≤ 0xFFE) :
    let p := m.registers.pc
    let w := m.word
    let n := m.step.machine
    let next := n.registers.pc
    (w.fits "1NNN" = true → next = w.toNat % 0x1000) ∧
    (w.fits "2NNN" = true → (∀ f, ¬ m.Meets f) → next = w.toNat % 0x1000) ∧
    (w.fits "BNNN" = true →
      next = w.toNat % 0x1000 + (m.registers.get Registers.offsetRegister).toNat) ∧
    (w = 0x00EE → (∀ f, ¬ m.Meets f) →
      m.registers.stack.toList = n.registers.stack.toList ++ [next]) ∧
    (w.fits "3XNN" = true → next = if m.registers.get w.x = w.low then p + 4 else p + 2) ∧
    (w.fits "4XNN" = true → next = if m.registers.get w.x = w.low then p + 2 else p + 4) ∧
    (w.fits "5XY0" = true →
      next = if m.registers.get w.x = m.registers.get w.y then p + 4 else p + 2) ∧
    (w.fits "9XY0" = true →
      next = if m.registers.get w.x = m.registers.get w.y then p + 2 else p + 4) ∧
    (w.fits "EX9E" = true →
      next = if m.keypad.isPressed (m.registers.get w.x).toNat then p + 4 else p + 2) ∧
    (w.fits "EXA1" = true →
      next = if m.keypad.isPressed (m.registers.get w.x).toNat then p + 2 else p + 4) ∧
    (w.fitsAny Instruction.turningRows = false → next = p + 2) ∧
    (∀ f, m.Meets f → next = p + 2) ∧
    ∀ left right u v, left.fetch p = .ok u → right.fetch p = .ok v → u.x = v.x →
      (u.fits "3XNN" = true → v.fits "4XNN" = true → u.low = v.low →
        ({ m with memory := left }.Skips ↔ ¬ { m with memory := right }.Skips)) ∧
      (u.fits "5XY0" = true → v.fits "9XY0" = true → u.y = v.y →
        ({ m with memory := left }.Skips ↔ ¬ { m with memory := right }.Skips)) ∧
      (u.fits "EX9E" = true → v.fits "EXA1" = true →
        ({ m with memory := left }.Skips ↔ ¬ { m with memory := right }.Skips) ∧
        (15 < (m.registers.get v.x).toNat → { m with memory := right }.Skips)) := by
  intro p w n next
  have hf : m.memory.fetch p = .ok w := Memory.fetch_of_le hp
  refine ⟨fun h => ?_, fun h hok => ?_, fun h => ?_, stack_of_ret hm hp, fun h => ?_, fun h => ?_,
    fun h => ?_, fun h => ?_, fun h => ?_, fun h => ?_, pc_of_not_turning hm hf,
    fun f => pc_of_meets hm hp, fun left right u v hleft hright hx => ⟨fun hu hv hnn => ?_,
      fun hu hv hy => ?_, fun hu hv => ⟨?_, fun hkey => ?_⟩⟩⟩
  · have hi : Instruction.ofWord w = .jump w.nnn :=
      Instruction.ofWord_of_turn (by simp [Word.turns]) h
    exact (pc_of_faultless hm hf hi rfl).trans w.toNat_nnn
  · have hi : Instruction.ofWord w = .call w.nnn :=
      Instruction.ofWord_of_turn (by simp [Word.turns]) h
    have hfault : m.fault? (.ofWord w) = none := (executes_of_not_meets hm hp hok).faultless
    exact (pc_of_faultless hm hf hi (hi ▸ hfault)).trans w.toNat_nnn
  · have hi : Instruction.ofWord w = .jumpOffset w.nnn :=
      Instruction.ofWord_of_turn (by simp [Word.turns]) h
    rw [← w.toNat_nnn]
    exact pc_of_faultless hm hf hi rfl
  · have hturn : ("3XNN", .skip (.holds w.x w.low)) ∈ w.turns := by simp [Word.turns]
    refine (pc_of_skip_row hm hf hturn h).trans ?_
    simp only [Condition.test, beq_iff_eq, p]
  · have hturn : ("4XNN", .skip (.lacks w.x w.low)) ∈ w.turns := by simp [Word.turns]
    refine (pc_of_skip_row hm hf hturn h).trans ?_
    simp only [Condition.test, bne_iff_ne, ite_not, p]
  · have hturn : ("5XY0", .skip (.equal w.x w.y)) ∈ w.turns := by simp [Word.turns]
    refine (pc_of_skip_row hm hf hturn h).trans ?_
    simp only [Condition.test, beq_iff_eq, p]
  · have hturn : ("9XY0", .skip (.differ w.x w.y)) ∈ w.turns := by simp [Word.turns]
    refine (pc_of_skip_row hm hf hturn h).trans ?_
    simp only [Condition.test, bne_iff_ne, ite_not, p]
  · have hturn : ("EX9E", .skip (.pressed w.x)) ∈ w.turns := by simp [Word.turns]
    exact pc_of_skip_row hm hf hturn h
  · have hturn : ("EXA1", .skip (.released w.x)) ∈ w.turns := by simp [Word.turns]
    refine (pc_of_skip_row hm hf hturn h).trans ?_
    simp only [Condition.test, Bool.not_eq_true', ← Bool.not_eq_true, ite_not, p]
  · have hasked : Instruction.ofWord u = .skip (.holds v.x v.low) := by
      rw [← hx, ← hnn]
      exact Instruction.ofWord_of_turn (by simp [Word.turns]) hu
    exact skips_iff_not_skips hm hleft hright hasked
      (Instruction.ofWord_of_turn (by simp [Word.turns, Condition.opposite]) hv)
  · have hasked : Instruction.ofWord u = .skip (.equal v.x v.y) := by
      rw [← hx, ← hy]
      exact Instruction.ofWord_of_turn (by simp [Word.turns]) hu
    exact skips_iff_not_skips hm hleft hright hasked
      (Instruction.ofWord_of_turn (by simp [Word.turns, Condition.opposite]) hv)
  · have hasked : Instruction.ofWord u = .skip (.pressed v.x) := by
      rw [← hx]
      exact Instruction.ofWord_of_turn (by simp [Word.turns]) hu
    exact skips_iff_not_skips hm hleft hright hasked
      (Instruction.ofWord_of_turn (by simp [Word.turns, Condition.opposite]) hv)
  · have hasked : Instruction.ofWord v = .skip (.released v.x) :=
      Instruction.ofWord_of_turn (by simp [Word.turns]) hv
    rw [skips_iff (m := { m with memory := right }) hm hright hasked, Condition.test,
      Bool.not_eq_true']
    exact Keypad.isPressed_of_lt hkey

/-- A machine whose program is the word `w`, with `b` in every register. -/
def onWord (w : Word) (b : Byte) : Machine :=
  { boot "" (Memory.initial.blit Memory.origin [w.high, w.low]) {} .zeros with
    registers := { Registers.start with v := .replicate Registers.count b } }

theorem fetch_onWord (w : Word) (b : Byte) : (onWord w b).memory.fetch 0x200 = .ok w := by
  have hnew : Machine.new ⟨"", [w.high, w.low]⟩ {} = .ok (_, [.loaded "" 2]) := rfl
  exact (fetch_of_new hnew (k := 0) Nat.one_lt_two).trans (congrArg Except.ok w.ofBytes_high_low)

theorem pc_onWord_le (w : Word) (b : Byte) : (onWord w b).registers.pc ≤ 0xFFE :=
  (by decide : 0x200 ≤ 0xFFE)

theorem word_onWord (w : Word) (b : Byte) : (onWord w b).word = w :=
  Except.ok.inj ((Memory.fetch_of_le (pc_onWord_le w b)).symm.trans (fetch_onWord w b))

/-- A jump behind the end of memory, a return from no call, a skip, and the two questions about a
key that there is not. -/
theorem counter_follows_table_onWord :
    (onWord 0xBFFF 0xFF).step.machine.registers.pc = 0x10FE ∧
      (onWord 0x00EE 0).Meets (.stack .underflow) ∧
      (onWord 0x00EE 0).step.machine.registers.pc = 0x202 ∧
      (onWord 0x3510 16).step.machine.registers.pc = 0x204 ∧
      (onWord 0xE39E 16).step.machine.registers.pc = 0x202 ∧
      { onWord 0xE39E 16 with memory := (onWord 0xE3A1 16).memory }.Skips ∧
      ¬ (onWord 0xE39E 16).Skips := by
  have htable (w : Word) (b : Byte) := counter_follows_table (onWord w b) rfl (pc_onWord_le w b)
  simp only [word_onWord] at htable
  obtain ⟨-, -, hoffset, -⟩ := htable 0xBFFF 0xFF
  obtain ⟨-, -, -, -, -, -, -, -, -, -, -, hfault, -⟩ := htable 0x00EE 0
  obtain ⟨-, -, -, -, hholds, -⟩ := htable 0x3510 16
  obtain ⟨-, -, -, -, -, -, -, -, hpressed, -, -, -, hpairs⟩ := htable 0xE39E 16
  obtain ⟨-, -, hkeys⟩ :=
    hpairs _ _ _ _ (fetch_onWord 0xE39E 16) (fetch_onWord 0xE3A1 16) (by decide)
  obtain ⟨hpair, hnokey⟩ := hkeys (by decide) (by decide)
  have hunderflow : (onWord 0x00EE 0).Meets (.stack .underflow) :=
    (meets_iff rfl (pc_onWord_le _ _)).2 (by rw [word_onWord]; rfl)
  have hreleased := hnokey (by decide)
  exact ⟨(hoffset (by decide)).trans rfl, hunderflow, hfault _ hunderflow,
    (hholds (by decide)).trans rfl, (hpressed (by decide)).trans rfl, hreleased,
    fun hskips => hpair.1 hskips hreleased⟩

end Machine

end Chip8
