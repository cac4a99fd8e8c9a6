import Chip8.Memory.Access
import Chip8.Proofs.Counter
import Chip8.Proofs.Loading
import Chip8.Proofs.Stepping
import Chip8.Proofs.Writes

/-!
# Where a program lies

A program is loaded as it is, byte by byte, and a machine goes through its words in order as long as
none of them leads elsewhere, stores to memory or faults.

* `Memory.load_eq_empty_iff`, `Memory.load_eq_tooLarge_iff`, `Memory.load_of_le` : which programs
  are loaded.
* `Memory.run_install` : loading, write by write.
* `Machine.fetch_of_words` : the words of a program where it lies.
* `Machine.Straight` : a word that leads on to the next one and leaves memory alone.
* `Machine.Through`, `Machine.through_after` : **a machine goes through straight words in order.**
* `Machine.program_laid_out` : **a program lies where it is loaded, and is executed from there.**
-/

namespace Chip8

/-! ### Loading -/

namespace Memory

variable {m n : Memory} {bs : List Byte} {e : RomError}

theorem load_of_capacity_lt (h : capacity < bs.length) :
    m.load bs = .error (.tooLarge bs.length capacity) := by
  have hne : bs ≠ [] := List.ne_nil_of_length_pos (Nat.zero_lt_of_lt h)
  rw [load, if_neg hne, if_pos h]

theorem load_of_le (hne : bs ≠ []) (hle : bs.length ≤ capacity) :
    m.load bs = .ok (m.blit origin bs) := by
  rw [load, if_neg hne, if_neg (Nat.not_lt_of_le hle)]

theorem load_eq_empty_iff : m.load bs = .error .empty ↔ bs = [] := by
  unfold load
  split
  · simp [*]
  · split <;> simp [*]

theorem load_eq_tooLarge_iff {size limit : Nat} :
    m.load bs = .error (.tooLarge size limit) ↔
      capacity < bs.length ∧ size = bs.length ∧ limit = capacity := by
  unfold load
  split
  · simp [*]
  · split <;> simp [*, eq_comm]

/-- **Loading, write by write**, has the whole effect or none. -/
theorem run_install (m : Memory) (bs : List Byte) :
    (install bs).run m =
      match m.load bs with
      | .ok n => .ok () n
      | .error e => .error e m := by
  unfold install load
  by_cases hne : bs = []
  · rw [if_pos hne, if_pos hne]
    rfl
  · rw [if_neg hne, if_neg hne]
    by_cases hlong : capacity < bs.length
    · rw [if_pos hlong, if_pos hlong]
      rfl
    · rw [if_neg hlong, if_neg hlong]
      rfl

theorem run_install_eq_ok_iff : (install bs).run m = .ok () n ↔ m.load bs = .ok n := by
  rw [run_install]
  cases m.load bs <;> simp

theorem run_install_eq_error_iff :
    (install bs).run m = .error e n ↔ m.load bs = .error e ∧ n = m := by
  rw [run_install]
  cases m.load bs <;> simp [eq_comm]

end Memory

/-! ### Words in memory -/

/-- The bytes of a word as they lie in memory. -/
def Word.bytes (w : Word) : List Byte := [w.high, w.low]

/-- A word has two bytes, so that every word is at twice its place. -/
theorem Word.getElem?_flatMap_bytes {ws : List Word} {i : Nat} (hi : i < ws.length) :
    (ws.flatMap bytes)[2 * i]? = some ws[i].high ∧
      (ws.flatMap bytes)[2 * i + 1]? = some ws[i].low := by
  induction ws generalizing i with
  | nil => cases hi
  | cons w ws ih =>
    cases i with
    | zero => exact ⟨rfl, rfl⟩
    | succ i => exact ih (Nat.lt_of_succ_lt_succ hi)

namespace Machine

variable {m n : Machine} {w : Word} {ws : List Word} {i : Nat}

section New

variable {rom : Rom} {config : Config} {environment : Nat → Byte} {log : Log}

theorem exists_new_iff :
    (∃ m log, new rom config environment = .ok (m, log)) ↔
      rom.data ≠ [] ∧ rom.data.length ≤ Memory.capacity := by
  constructor
  · rintro ⟨m, log, hnew⟩
    obtain ⟨image, hload, -⟩ := boot_of_new hnew
    refine ⟨fun hnil => ?_, Nat.le_of_not_lt fun hlong => ?_⟩
    · rw [Memory.load_eq_empty_iff.2 hnil] at hload
      cases hload
    · rw [Memory.load_of_capacity_lt hlong] at hload
      cases hload
  · rintro ⟨hne, hle⟩
    refine ⟨boot rom.name (Memory.initial.blit Memory.origin rom.data) config
      (config.generator environment), [loadedEntry rom], ?_⟩
    rw [new, imageOf, Memory.load_of_le hne hle]
    rfl

theorem fetch_of_words (hnew : new rom config environment = .ok (m, log))
    (hws : rom.data = ws.flatMap Word.bytes) (hi : i < ws.length) :
    m.memory.fetch (Memory.origin + 2 * i) = .ok ws[i] := by
  obtain ⟨hhigh, hlow⟩ := Word.getElem?_flatMap_bytes hi
  rw [← hws] at hhigh hlow
  obtain ⟨_, hhigh⟩ := List.getElem?_eq_some_iff.1 hhigh
  obtain ⟨hlt, hlow⟩ := List.getElem?_eq_some_iff.1 hlow
  rw [fetch_of_new hnew hlt, hhigh, hlow, Word.ofBytes_high_low]

end New

/-! ### Straight words -/

/-- The rows of the words that store to memory. -/
def storingRows : List String := ["FX33", "FX55"]

/-- The word leads on to the one behind it and leaves memory alone: it is no jump, no call, no
return, no skip and no store, and it does not fault. -/
structure Straight (m : Machine) (w : Word) : Prop where
  onward : w.fitsAny Instruction.turningRows = false
  storeless : w.fitsAny storingRows = false
  faultless : m.fault? (.ofWord w) = none

theorem memory_of_storeless (hf : m.memory.fetch m.registers.pc = .ok w)
    (hw : w.fitsAny storingRows = false) : m.step.machine.memory = m.memory := by
  refine Memory.ext_cell fun a _ => Decidable.not_not.1 fun hne => ?_
  obtain ⟨v, hv, -, hstores⟩ := covers_of_cell_ne hne
  -- the word that stores is the one that was fetched
  obtain rfl : v = w := Except.ok.inj (hv.fetched.symm.trans hf)
  simp only [Word.fitsAny, storingRows, List.any_cons, List.any_nil, Bool.or_false,
    Bool.or_eq_false_iff] at hw
  rcases hstores with ⟨hfits, -⟩ | ⟨hfits, -⟩
  · rw [hw.1] at hfits
    cases hfits
  · rw [hw.2] at hfits
    cases hfits

/-- `n` is what becomes of `m` when it executes the words `ws`, which lie one behind the other at
its counter. -/
structure Through (m n : Machine) (ws : List Word) : Prop where
  running : n.halted = none
  pc : n.registers.pc = m.registers.pc + 2 * ws.length
  memory : n.memory = m.memory
  machine : n = ws.foldl afterWord m

theorem Through.step (h : m.Through n ws) (hf : n.memory.fetch n.registers.pc = .ok w)
    (hw : n.Straight w) : m.Through n.step.machine (ws ++ [w]) := by
  have hexecutes : n.Executes w := ⟨h.running, hf, hw.faultless⟩
  refine ⟨?_, ?_, (memory_of_storeless hf hw.storeless).trans h.memory, ?_⟩
  · obtain ⟨e, hx, hstep⟩ := hexecutes.step_eq
    rw [hstep]
    exact (kept_of_execute hx).halted.trans h.running
  · rw [pc_of_not_turning h.running hf hw.onward, h.pc, List.length_append, List.length_singleton,
      Nat.mul_add, Nat.add_assoc]
  · rw [step_of_fetched h.running hf, List.foldl_append, ← h.machine]
    rfl

/-- **A machine goes through straight words in order.** -/
theorem through_after (hm : m.halted = none)
    (hws : ∀ j (hj : j < ws.length), m.memory.fetch (m.registers.pc + 2 * j) = .ok ws[j])
    (hi : i ≤ ws.length) (hstraight : ∀ j (hj : j < i), (m.after j).Straight ws[j]) :
    m.Through (m.after i) (ws.take i) := by
  induction i with
  | zero => exact ⟨hm, rfl, rfl, rfl⟩
  | succ i ih =>
    have h := ih (Nat.le_of_succ_le hi) fun j hj => hstraight j (Nat.lt_succ_of_lt hj)
    have hf : (m.after i).memory.fetch (m.after i).registers.pc = .ok ws[i] := by
      rw [h.memory, h.pc, List.length_take, Nat.min_eq_left (Nat.le_of_succ_le hi)]
      exact hws i hi
    rw [List.take_succ_eq_append_getElem hi]
    exact h.step hf (hstraight i (Nat.lt_succ_self i))

/-- **A program lies where it is loaded, and is executed from there.**  Loading refuses a program
without bytes and one of more than `0xDFF` bytes, each for its own reason, and then changes no cell;
every other program it writes to the cells from `0x200` on, and it changes no cell around them. So
the memory of a new machine, and its image, are the font, zeros up to `0x200`, the program and zeros
up to the end. If the program is made of words, each of them is fetched at its place, and as long as
the words before it lead on, leave memory alone and do not fault, the machine executes it after just
these words, in order, whatever random bytes it has. -/
theorem program_laid_out :
    (∀ (memory : Memory) (data : List Byte),
      let reply := (Memory.install data).run memory
      (∀ n, reply = .error .empty n ↔ data = [] ∧ n = memory) ∧
      (∀ size limit n, reply = .error (.tooLarge size limit) n ↔
        0xDFF < data.length ∧ size = data.length ∧ limit = 0xDFF ∧ n = memory) ∧
      (data ≠ [] → data.length ≤ 0xDFF → ∃ n, reply = .ok () n ∧
        (∀ k (hk : k < data.length), n.cell (0x200 + k) = data[k]) ∧
        ∀ a, a < 0x200 ∨ 0x200 + data.length ≤ a → n.cell a = memory.cell a) ∧
      (∀ n, reply = .ok () n ↔ memory.load data = .ok n) ∧
      ∀ e, reply = .error e memory ↔ memory.load data = .error e) ∧
    ∀ rom config environment,
      ((∃ m log, new rom config environment = .ok (m, log)) ↔
        rom.data ≠ [] ∧ rom.data.length ≤ 0xDFF) ∧
      ∀ made log, new rom config environment = .ok (made, log) → ∀ g,
        let m := made.setGenerator g
        m.image = m.memory ∧
        m.memory.cells.toList =
          Font.bytes ++ .replicate (0x200 - 0x50) 0 ++ rom.data ++
            .replicate (0x1000 - (0x200 + rom.data.length)) 0 ∧
        ∀ ws : List Word, rom.data = ws.flatMap Word.bytes → ∀ i (hi : i < ws.length),
          m.memory.fetch (0x200 + 2 * i) = .ok ws[i] ∧
          ((∀ j (hj : j < i), (m.after j).Straight ws[j]) →
            let n := m.after i
            n = (ws.take i).foldl afterWord m ∧ n.halted = none ∧
              n.registers.pc = 0x200 + 2 * i ∧ n.memory.fetch n.registers.pc = .ok ws[i] ∧
              n.step = n.executeWord ws[i] ∧
              ∃ rest, n.step.log = .fetched (0x200 + 2 * i) ws[i] (.ofWord ws[i]) :: rest) := by
  refine ⟨fun memory data => ⟨fun n => ?_, fun size limit n => ?_, fun hne hle => ?_,
    fun n => Memory.run_install_eq_ok_iff, fun e => ?_⟩,
    fun rom config environment => ⟨exists_new_iff, fun made log hnew g => ?_⟩⟩
  · rw [Memory.run_install_eq_error_iff, Memory.load_eq_empty_iff]
  · rw [Memory.run_install_eq_error_iff, Memory.load_eq_tooLarge_iff, and_assoc, and_assoc]
    rfl
  · have hfits : Memory.origin + data.length ≤ Memory.size := by
      simp only [Memory.origin, Memory.size]
      omega
    exact ⟨_, Memory.run_install_eq_ok_iff.2 (Memory.load_of_le hne hle),
      fun k hk => memory.cell_blit_add hfits hk, fun a ha => Memory.cell_blit_of_lt ha⟩
  · rw [Memory.run_install_eq_error_iff, and_iff_left rfl]
  · intro m
    obtain ⟨himage, hcells⟩ := toList_memory_of_new hnew
    obtain ⟨hm, hpc⟩ : m.halted = none ∧ m.registers.pc = 0x200 := by
      obtain ⟨image, -, rfl⟩ := boot_of_new hnew
      exact ⟨rfl, rfl⟩
    refine ⟨himage, hcells, fun ws hws i hi => ⟨fetch_of_words hnew hws hi, fun hstraight => ?_⟩⟩
    have hfetch : ∀ j (hj : j < ws.length), m.memory.fetch (m.registers.pc + 2 * j) = .ok ws[j] :=
      fun j hj => hpc ▸ fetch_of_words hnew hws hj
    obtain ⟨hrunning, hn, hmemory, hmachine⟩ :=
      through_after hm hfetch (Nat.le_of_lt hi) hstraight
    rw [hpc, List.length_take, Nat.min_eq_left (Nat.le_of_lt hi)] at hn
    have hf : (m.after i).memory.fetch (m.after i).registers.pc = .ok ws[i] := by
      rw [hmemory, hn]
      exact fetch_of_words hnew hws hi
    obtain ⟨rest, hlog⟩ := log_of_fetch hrunning hf
    rw [hn] at hlog
    exact ⟨hmachine, hrunning, hn, hf, step_of_fetched hrunning hf, rest, hlog⟩

/-- A program of three words that counts to three and clears the screen, on a chip with other random
bytes than it was made with, and two bytes that are loaded over it. -/
theorem program_laid_out_counting :
    let rom : Rom := ⟨"", [0x6A, 0x02, 0x7A, 0x01, 0x00, 0xE0]⟩
    ∃ made log, new rom {} (fun i => i) = .ok (made, log) ∧
      rom.data = [0x6A02, 0x7A01, 0x00E0].flatMap Word.bytes ∧
      let m := made.setGenerator (.counter 7 1)
      m.Straight 0x6A02 ∧ (m.after 1).Straight 0x7A01 ∧
      (m.after 2).registers.get ⟨10, by decide⟩ = 3 ∧
      (m.after 2).step = (m.after 2).executeWord 0x00E0 ∧
      ∃ n, (Memory.install [1, 2]).run m.memory = .ok () n ∧ n.cell 0x201 = 2 ∧
        n.cell 0x202 = m.memory.cell 0x202 := by
  intro rom
  obtain ⟨hload, hrom⟩ := program_laid_out
  obtain ⟨haccepted, hnew⟩ := hrom rom {} fun i => i
  obtain ⟨made, log, hmade⟩ := haccepted.2 ⟨List.cons_ne_nil _ _, by decide⟩
  have hws : rom.data = [0x6A02, 0x7A01, 0x00E0].flatMap Word.bytes := by decide
  refine ⟨made, log, hmade, hws, ?_⟩
  intro m
  have hfirst : m.Straight 0x6A02 := ⟨by decide, by decide, rfl⟩
  have hsecond : (m.after 1).Straight 0x7A01 := ⟨by decide, by decide, rfl⟩
  obtain ⟨-, -, hwords⟩ := hnew made log hmade (.counter 7 1)
  obtain ⟨-, hthrough⟩ := hwords _ hws 2 (by decide)
  obtain ⟨hfold, -, -, -, hstep, -⟩ := hthrough fun
    | 0, _ => hfirst
    | 1, _ => hsecond
  obtain ⟨-, -, hwritten, -⟩ := hload m.memory [1, 2]
  obtain ⟨n, hn, hinside, haround⟩ := hwritten (List.cons_ne_nil _ _) (by decide)
  refine ⟨hfirst, hsecond, ?_, hstep, n, hn, hinside 1 (by decide),
    haround 0x202 (.inr (by decide))⟩
  rw [hfold]
  obtain ⟨image, -, rfl⟩ := boot_of_new hmade
  rfl

end Machine

end Chip8
