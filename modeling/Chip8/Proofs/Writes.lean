import Chip8.Proofs.Calls
import Chip8.Proofs.Cells
import Chip8.Proofs.Faults
import Chip8.Proofs.Programs

/-!
# What a step may write

A step fetches a word, moves the counter, and may halt. All else that it changes is written by the
instruction that it executes, and each part of the state is written by few instructions.

* `Instruction.target?`, `Instruction.stored` : the register that an instruction computes, and the
  number of cells that it writes from the index on.
* `Machine.Covers`, `Machine.Alters` : a step executes a word that writes a cell, or a register.
* `Machine.executes_of_step_ne` : a part of the state changes only with the instruction.
* `Machine.Framed`, `Machine.framed_of_step` : what the next step may write.
* `Machine.pasts` : the machines that the steps since the start of the program started from.
* `Machine.writes_framed` : **every step writes what its instruction may write, and a cell that no
  step has covered holds what was loaded.**
-/

namespace Chip8

/-! ### Memory and registers -/

namespace Memory

variable {m changed : Memory} {a i : Nat} {bs : List Byte}

/-- A block of writes leaves the cells around it alone. -/
theorem cell_of_replace (hr : m.replace a bs = .ok changed) (h : changed.cell i ≠ m.cell i) :
    a ≤ i ∧ i < a + bs.length := by
  unfold replace at hr
  split at hr
  · cases hr
    by_cases hi : i < a ∨ a + bs.length ≤ i
    · exact absurd (cell_blit_of_lt hi) h
    · omega
  · cases hr

end Memory

namespace Registers

variable {r : Registers} {x y : Nibble}

theorem get_setFlag_of_ne {c : Bool} (h : (r.setFlag c).get y ≠ r.get y) : y = flagRegister := by
  rw [get_setFlag] at h
  by_cases hy : flagRegister = y
  · exact hy.symm
  · rw [if_neg hy] at h
    exact absurd rfl h

theorem get_set_of_ne {b : Byte} (h : (r.set x b).get y ≠ r.get y) : y = x := by
  rw [get_set] at h
  by_cases hy : x = y
  · exact hy.symm
  · rw [if_neg hy] at h
    exact absurd rfl h

/-- The result of an operation is written to its register, and its flag, if it has one, to the flag
register. -/
theorem get_put_of_ne {c : Computed} (h : (r.put x c).get y ≠ r.get y) :
    y = x ∨ c.flag ≠ none ∧ y = flagRegister := by
  obtain ⟨value, _ | flag⟩ := c
  · exact .inl (get_set_of_ne h)
  · by_cases hy : (r.setFlag flag).get y = r.get y
    · rw [← hy] at h
      exact .inl (get_set_of_ne h)
    · exact .inr ⟨by simp, get_setFlag_of_ne hy⟩

theorem le_of_get_fill_ne {data : List Byte} (h : (r.fill x data).get y ≠ r.get y) : y ≤ x := by
  rw [get_fill] at h
  by_cases hy : y ≤ x
  · exact hy
  · rw [if_neg hy] at h
    exact absurd rfl h

end Registers

namespace Instruction

/-- The register `X` that an instruction computes, alone or as the last of a block. -/
def target? : Instruction → Option Nibble
  | setByte x _ | addByte x _ | combine _ x _ | shift _ x | random x _ | readDelay x | readKey x
  | load x => some x
  | _ => none

/-- The register that a word computes is the second of its digits. -/
theorem digit_of_target? {w : Word} {x : Nibble} (h : (ofWord w).target? = some x) :
    x.val = w.digit 2 := by
  rw [← Fields.x_ofWord]
  unfold ofWord ofFields ofSystem ofArithmetic ofKeys ofDevices at h
  repeat' split at h
  all_goals cases h
  all_goals rfl

/-- The number of cells from the index on that an instruction writes. -/
def stored : Instruction → Nat
  | storeDigits _ => 3
  | store x => x + 1
  | _ => 0

/-- Two kinds of instructions write memory. -/
theorem stored_ofWord {w : Word} {k : Nat} (h : k < (ofWord w).stored) :
    w.fits "FX33" = true ∧ k < 3 ∨ w.fits "FX55" = true ∧ k ≤ w.digit 2 := by
  cases hi : ofWord w with
  | storeDigits x =>
    rw [hi] at h
    exact .inl ⟨fits_of_pattern (by rw [hi]; rfl), h⟩
  | store x =>
    have hfits : w.fits "FX55" = true := fits_of_pattern (by rw [hi]; rfl)
    have hreach := reach_ofWord_iff.2 (.inr (.inr ⟨.inl hfits, rfl⟩))
    rw [hi] at h hreach
    have hlast : x.val + 1 = w.digit 2 + 1 := Option.some.inj hreach
    rw [stored, hlast] at h
    exact .inr ⟨hfits, Nat.le_of_lt_succ h⟩
  | _ =>
    rw [hi] at h
    cases h

/-- The rows whose instructions compute register `X`. -/
def targetRows : List String :=
  ["6XNN", "7XNN", "8XY0", "8XY1", "8XY2", "8XY3", "8XY4", "8XY5", "8XY6", "8XY7", "8XYE", "CXNN",
    "FX07", "FX0A"]

/-- The rows whose instructions set the flag. -/
def flagRows : List String := ["8XY4", "8XY5", "8XY6", "8XY7", "8XYE", "DXYN"]

end Instruction

namespace Machine

variable {m : Machine}

/-! ### Instructions -/

section Instructions

variable {i : Instruction} {e : Execution} (h : m.execute i = .ok e)
include h

theorem cell_of_execute {a : Nat} (hne : e.machine.memory.cell a ≠ m.memory.cell a) :
    m.registers.index.toNat ≤ a ∧ a < m.registers.index.toNat + i.stored := by
  cases executed_of_execute h with
  | storeDigits hr => exact Memory.cell_of_replace hr hne
  | store hr =>
    have hcell := Memory.cell_of_replace hr hne
    rw [length_upTo] at hcell
    exact hcell
  | _ => exact absurd rfl hne

theorem inRows_of_screen_ne (hne : e.machine.screen ≠ m.screen) : i.InRows ["00E0", "DXYN"] := by
  cases executed_of_execute h with
  | clearScreen => exact ⟨"00E0", by simp, rfl⟩
  | draw => exact ⟨"DXYN", by simp, rfl⟩
  | _ => exact absurd rfl hne

theorem inRows_of_delay_ne (hne : e.machine.timers.delay ≠ m.timers.delay) :
    i.InRows ["FX15"] := by
  cases executed_of_execute h with
  | setDelay => exact ⟨"FX15", by simp, rfl⟩
  | _ => exact absurd rfl hne

theorem inRows_of_sound_ne (hne : e.machine.timers.sound ≠ m.timers.sound) :
    i.InRows ["FX18"] := by
  cases executed_of_execute h with
  | setSound => exact ⟨"FX18", by simp, rfl⟩
  | _ => exact absurd rfl hne

theorem inRows_of_index_ne (hne : e.machine.registers.index ≠ m.registers.index) :
    i.InRows ["ANNN", "FX1E", "FX29", "FX55", "FX65"] := by
  cases executed_of_execute h with
  | setIndex => exact ⟨"ANNN", by simp, rfl⟩
  | addIndex => exact ⟨"FX1E", by simp, rfl⟩
  | glyph => exact ⟨"FX29", by simp, rfl⟩
  | store => exact ⟨"FX55", by simp, rfl⟩
  | load => exact ⟨"FX65", by simp, rfl⟩
  | combine | shift => exact absurd (index_put ..) hne
  | _ => exact absurd rfl hne

theorem inRows_of_stack_ne (hne : e.machine.registers.stack ≠ m.registers.stack) :
    i.InRows ["2NNN", "00EE"] := by
  cases i with
  | call => exact ⟨"2NNN", by simp, rfl⟩
  | ret => exact ⟨"00EE", by simp, rfl⟩
  | _ => exact absurd (stack_of_execute h fun _ => rfl) hne

theorem inRows_of_generator_ne (hne : e.machine.generator ≠ m.generator) :
    i.InRows ["CXNN"] := by
  cases executed_of_execute h with
  | random => exact ⟨"CXNN", by simp, rfl⟩
  | _ => exact absurd rfl hne

/-- A register is computed, is one of a block, or receives the flag. -/
theorem inRows_of_get_ne {r : Nibble}
    (hne : e.machine.registers.get r ≠ m.registers.get r) :
    i.InRows Instruction.targetRows ∧ i.target? = some r ∨
      i.InRows ["FX65"] ∧ (∃ x, i.target? = some x ∧ r ≤ x) ∨
      i.InRows Instruction.flagRows ∧ r = Registers.flagRegister := by
  cases executed_of_execute h with
  | setByte | addByte | random | readDelay | keyRead =>
    obtain rfl := Registers.get_set_of_ne hne
    exact .inl ⟨⟨_, by simp [Instruction.targetRows], rfl⟩, rfl⟩
  | @combine op =>
    rcases Registers.get_put_of_ne hne with rfl | ⟨hflag, rfl⟩
    · exact .inl ⟨by cases op <;> exact ⟨_, by simp [Instruction.targetRows], rfl⟩, rfl⟩
    · refine .inr (.inr ⟨?_, rfl⟩)
      cases op with
      | add | sub | reverseSub => exact ⟨_, by simp [Instruction.flagRows], rfl⟩
      | _ => exact absurd rfl hflag
  | @shift d =>
    rcases Registers.get_put_of_ne hne with rfl | ⟨-, rfl⟩
    · exact .inl ⟨by cases d <;> exact ⟨_, by simp [Instruction.targetRows], rfl⟩, rfl⟩
    · exact .inr (.inr ⟨by cases d <;> exact ⟨_, by simp [Instruction.flagRows], rfl⟩, rfl⟩)
  | draw =>
    obtain rfl := Registers.get_setFlag_of_ne hne
    exact .inr (.inr ⟨⟨"DXYN", by simp [Instruction.flagRows], rfl⟩, rfl⟩)
  | load =>
    exact .inr (.inl ⟨⟨"FX65", by simp, rfl⟩, _, rfl, Registers.le_of_get_fill_ne hne⟩)
  | _ => exact absurd rfl hne

end Instructions

/-! ### Steps -/

/-- The next step executes a word that writes the cell `a`: an `FX33` writes three cells from the
index on, and an `FX55` one for each register up to `X`. -/
def Covers (m : Machine) (a : Nat) : Prop :=
  let i := m.registers.index.toNat
  ∃ w, m.Executes w ∧ i ≤ a ∧
    (w.fits "FX33" = true ∧ a ≤ i + 2 ∨ w.fits "FX55" = true ∧ a ≤ i + w.digit 2)

/-- The next step executes a word that writes the register `r`: as its `X`, as one of those up to
its `X`, or as the flag. -/
def Alters (m : Machine) (r : Nibble) : Prop :=
  ∃ w, m.Executes w ∧
    (w.fitsAny Instruction.targetRows = true ∧ r.val = w.digit 2 ∨
      w.fits "FX65" = true ∧ r.val ≤ w.digit 2 ∨
      w.fitsAny Instruction.flagRows = true ∧ r.val = 0xF)

/-- **A part of the state changes only with the instruction.**  What neither the fetch nor a halt
writes is changed by a step only if the step executes a word whose instruction changes it. -/
theorem executes_of_step_ne {α : Type} (part : Machine → α)
    (hpart : ∀ (n : Machine) opcode pc halted,
      part { n with opcode, registers := { n.registers with pc }, halted } = part n)
    (hne : part m.step.machine ≠ part m) :
    ∃ w e, m.Executes w ∧ (m.fetched w).execute (.ofWord w) = .ok e ∧
      part e.machine ≠ part (m.fetched w) := by
  generalize hr : m.step = reply at hne
  cases hr ▸ m.stepCase with
  | halted => exact absurd rfl hne
  | unfetched => exact absurd (hpart m m.opcode m.registers.pc _) hne
  | @faulted w f =>
    -- under either policy the fetched machine is left behind, halted or not
    simp only [afterFault, settle_eq] at hne
    split at hne
    · exact absurd (hpart m w (m.registers.pc + Word.size) (some f)) hne
    · exact absurd (hpart m w (m.registers.pc + Word.size) m.halted) hne
  | @executed w e hm hf hx =>
    refine ⟨w, e, executes_of_execute hm hf hx, hx, fun heq => hne ?_⟩
    have hend : part (m.afterExecution w e).machine = part e.machine :=
      hpart e.machine e.machine.opcode _ e.machine.halted
    rw [hend, heq]
    exact hpart m w (m.registers.pc + Word.size) m.halted

/-- What only the instructions of some rows change, a step changes only if it executes one. -/
theorem executesAny_of_step_ne {α : Type} (part : Machine → α) {rows : List String}
    (hpart : ∀ (n : Machine) opcode pc halted,
      part { n with opcode, registers := { n.registers with pc }, halted } = part n)
    (hrows : ∀ {k : Machine} {i e}, k.execute i = .ok e → part e.machine ≠ part k → i.InRows rows)
    (hne : part m.step.machine ≠ part m) : m.ExecutesAny rows := by
  obtain ⟨w, e, hw, hx, hchange⟩ := executes_of_step_ne part hpart hne
  exact ⟨w, hw, Instruction.fitsAny_of_inRows (hrows hx hchange)⟩

theorem covers_of_cell_ne {a : Nat} (hne : m.step.machine.memory.cell a ≠ m.memory.cell a) :
    m.Covers a := by
  obtain ⟨w, e, hw, hx, hchange⟩ :=
    executes_of_step_ne (fun n => n.memory.cell a) (fun _ _ _ _ => rfl) hne
  obtain ⟨hle, hlt⟩ := cell_of_execute hx hchange
  have hindex : (m.fetched w).registers.index = m.registers.index := rfl
  rw [hindex] at hle hlt
  have hstored := Instruction.stored_ofWord (Nat.sub_lt_left_of_lt_add hle hlt)
  refine ⟨w, hw, hle, ?_⟩
  rcases hstored with ⟨hfits, hk⟩ | ⟨hfits, hk⟩
  · exact .inl ⟨hfits, by omega⟩
  · exact .inr ⟨hfits, by omega⟩

theorem alters_of_get_ne {r : Nibble}
    (hne : m.step.machine.registers.get r ≠ m.registers.get r) : m.Alters r := by
  obtain ⟨w, e, hw, hx, hchange⟩ :=
    executes_of_step_ne (fun n => n.registers.get r) (fun _ _ _ _ => rfl) hne
  refine ⟨w, hw, ?_⟩
  rcases inRows_of_get_ne hx hchange with ⟨hrow, hr⟩ | ⟨hrow, x, hx, hle⟩ | ⟨hrow, rfl⟩
  · exact .inl ⟨Instruction.fitsAny_of_inRows hrow, Instruction.digit_of_target? hr⟩
  · obtain ⟨p, hp, hpattern⟩ := hrow
    rw [List.mem_singleton.1 hp] at hpattern
    exact .inr (.inl ⟨Instruction.fits_of_pattern hpattern, Instruction.digit_of_target? hx ▸ hle⟩)
  · exact .inr (.inr ⟨Instruction.fitsAny_of_inRows hrow, rfl⟩)

/-- `n` differs from `m` only in what the next step of `m` may write. -/
structure Framed (m n : Machine) : Prop where
  memory : ∀ a, n.memory.cell a ≠ m.memory.cell a → m.Covers a
  screen : n.screen ≠ m.screen → m.ExecutesAny ["00E0", "DXYN"]
  delay : n.timers.delay ≠ m.timers.delay → m.ExecutesAny ["FX15"]
  sound : n.timers.sound ≠ m.timers.sound → m.ExecutesAny ["FX18"]
  index : n.registers.index ≠ m.registers.index →
    m.ExecutesAny ["ANNN", "FX1E", "FX29", "FX55", "FX65"]
  stack : n.registers.stack ≠ m.registers.stack → m.ExecutesAny ["2NNN", "00EE"]
  generator : n.generator ≠ m.generator → m.ExecutesAny ["CXNN"]
  register : ∀ r, n.registers.get r ≠ m.registers.get r → m.Alters r
  /-- Name, image, keys and configuration are written by no instruction. -/
  unwritten : m.Unwritten n

theorem framed_of_step (m : Machine) : m.Framed m.step.machine where
  memory _ := covers_of_cell_ne
  screen := executesAny_of_step_ne (fun n => n.screen) (fun _ _ _ _ => rfl)
    inRows_of_screen_ne
  delay := executesAny_of_step_ne (fun n => n.timers.delay) (fun _ _ _ _ => rfl)
    inRows_of_delay_ne
  sound := executesAny_of_step_ne (fun n => n.timers.sound) (fun _ _ _ _ => rfl)
    inRows_of_sound_ne
  index := executesAny_of_step_ne (fun n => n.registers.index) (fun _ _ _ _ => rfl)
    inRows_of_index_ne
  stack := executesAny_of_step_ne (fun n => n.registers.stack) (fun _ _ _ _ => rfl)
    inRows_of_stack_ne
  generator := executesAny_of_step_ne (fun n => n.generator) (fun _ _ _ _ => rfl)
    inRows_of_generator_ne
  register _ := alters_of_get_ne
  unwritten := m.unwritten_of_step

/-! ### Runs -/

/-- The machines that the steps since the start of the program started from, after any requests. -/
def pasts (m : Machine) (before : List Machine) (commands : List Command) : List Machine :=
  m.history ([·]) before commands

/-- The cells that no step before has covered hold what was loaded. -/
def Holds (m : Machine) (before : List Machine) : Prop :=
  ∀ a, (∀ s ∈ before, ¬ s.Covers a) → m.memory.cell a = m.image.cell a

variable {before : List Machine}

theorem Holds.step (h : m.Holds before) : m.step.machine.Holds (before ++ [m]) := by
  intro a hcovers
  have hm : ¬ m.Covers a := hcovers m (by simp)
  have hcell : m.step.machine.memory.cell a = m.memory.cell a :=
    Decidable.not_not.1 (mt covers_of_cell_ne hm)
  rw [hcell, m.unwritten_of_step.image]
  exact h a fun s hs => hcovers s (List.mem_append_left _ hs)

theorem Holds.performAll (h : m.Holds before) (commands : List Command) :
    (m.performAll commands).machine.Holds (m.pasts before commands) :=
  performAll_history (fun _ _ h => h.step) (fun _ _ _ _ _ h => h) (fun _ _ _ => rfl) h commands

/-- **What a step may write.**  A step changes a memory cell only if it executes an `FX33` or an
`FX55` that covers it; pixels only with `00E0` and `DXYN`, the delay timer only with `FX15`, the
sound timer only with `FX18`, the index only with `ANNN`, `FX1E`, `FX29`, `FX55` and `FX65`, the
stack only with `2NNN` and `00EE`, and the random bytes only with `CXNN`; a register only if it is
the `X` of an instruction that computes it, one of those up to the `X` of an `FX65`, or the flag of
an instruction that has one; and never the name, the image, the keys or the configuration. So after
any requests to a new machine, a cell that no step since the start of the program has covered holds
what was loaded. -/
theorem writes_framed (m : Machine) :
    m.Framed m.step.machine ∧
      ∀ rom config environment log, Machine.new rom config environment = .ok (m, log) → ∀ commands,
        let reply := m.performAll commands
        ∃ image, imageOf (programs rom commands reply.result) = .ok image ∧
          ∀ a, (∀ s ∈ m.pasts [] commands, ¬ s.Covers a) →
            reply.machine.memory.cell a = image.cell a := by
  refine ⟨m.framed_of_step, fun rom config environment log hnew commands => ?_⟩
  have hstart : m.Holds [] := by
    obtain ⟨image, -, rfl⟩ := boot_of_new hnew
    exact fun a _ => rfl
  have hinstalled := (Installed.of_new hnew).performAll commands
  exact ⟨_, hinstalled.image, hstart.performAll commands⟩

/-- A machine whose program stores the first register. -/
def storing (registers : Registers) : Machine :=
  { boot "" (Memory.initial.blit Memory.origin [0xF0, 0x55]) {} .zeros with registers }

/-- A store that changes a cell, and one that does not reach the program. -/
theorem writes_framed_storing :
    let full : Registers := { Registers.start with v := .replicate 16 7, index := 0x300 }
    (storing full).step.machine.memory.cell 0x300 ≠ (storing full).memory.cell 0x300 ∧
      (storing full).Covers 0x300 ∧
      Machine.new ⟨"", [0xF0, 0x55]⟩ {} = .ok (storing .start, [.loaded "" 2]) ∧
      (∀ s ∈ (storing .start).pasts [] [.step], ¬ s.Covers 0x200) ∧
      ((storing .start).performAll [.step]).machine.memory.cell 0x200 = 0xF0 := by
  intro full
  have hnew : Machine.new ⟨"", [0xF0, 0x55]⟩ {} = .ok (storing .start, [.loaded "" 2]) := rfl
  have hfetch : (storing .start).memory.fetch 0x200 = .ok 0xF055 :=
    (fetch_of_new hnew (k := 0) (by decide)).trans rfl
  have hchange :
      (storing full).step.machine.memory.cell 0x300 ≠ (storing full).memory.cell 0x300 := by
    have hstored : (storing full).step.machine.memory =
        (storing full).memory.blit 0x300 [7] := by
      rw [step_of_executed (m := storing full) rfl hfetch rfl]
      rfl
    have hbefore : (storing full).memory.cell 0x300 = 0 := by
      rw [show (storing full).memory = Memory.initial.blit Memory.origin [0xF0, 0x55] from rfl,
        Memory.cell_blit_of_lt (by decide), Memory.initial, Memory.cell_blit_of_lt (by decide)]
      rw [Memory.cell, Vector.getElem?_replicate, if_pos (by decide)]
      rfl
    rw [hstored, hbefore, Memory.cell, Memory.getElem?_blit, if_pos (by decide)]
    decide
  have hcovers : ∀ s ∈ (storing .start).pasts [] [.step], ¬ s.Covers 0x200 := by
    intro s hs
    obtain rfl := List.mem_singleton.1 hs
    have hindex : (storing .start).registers.index.toNat = 0 := rfl
    rintro ⟨w, -, -, ⟨-, hle⟩ | ⟨-, hle⟩⟩
    · rw [hindex] at hle
      omega
    · have hdigit := w.digit_lt 2
      rw [hindex] at hle
      omega
  refine ⟨hchange, (writes_framed _).1.memory _ hchange, hnew, hcovers, ?_⟩
  obtain ⟨image, himage, hcell⟩ := (writes_framed _).2 _ _ _ _ hnew [.step]
  have hloaded : Except.ok (Memory.initial.blit Memory.origin [0xF0, 0x55]) = .ok image := himage
  rw [hcell _ hcovers, ← Except.ok.inj hloaded, Memory.cell, Memory.getElem?_blit,
    if_pos (by decide)]
  rfl

end Machine

end Chip8
