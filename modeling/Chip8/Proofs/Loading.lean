import Chip8.Machine.Setup
import Chip8.Proofs.Atomicity
import Chip8.Proofs.Cells

/-!
# Another program

Loading another program makes of a machine what a new machine for that program is, or leaves it
alone. Nothing of the old program is left: every part that a machine starts with is written again.

* `Memory.clear_eq`, `Screen.clear_eq` : what is used again is as new.
* `Setup.run_prepare`, `Setup.run_reset`, `Setup.run_load` : the work, write by write, has the
  effect of `Machine.imageOf`, `Machine.reset` and `Machine.load`.
* `Machine.load_eq_new` : **a machine with another program is a new one, or is as it was.**
-/

namespace Chip8

theorem Memory.clear_eq (m : Memory) : m.clear = .initial := by
  have hzeros : (m.cells.map fun _ => (0 : Byte)) = .replicate Memory.size 0 := by
    ext i hi
    rw [Vector.getElem_map, Vector.getElem_replicate]
  rw [Memory.clear, hzeros, Memory.initial]

theorem Screen.clear_eq (s : Screen) : s.clear = .blank := by
  have hdark : (s.cells.map fun _ => false) = .replicate Screen.resolution false := by
    ext i hi
    rw [Vector.getElem_map, Vector.getElem_replicate]
  rw [Screen.clear, hdark, Screen.blank]

/-! ### The work, write by write -/

namespace Setup

variable (m : Machine) (log : Log)

/-- The end of a piece of work which leaves behind what a request does. -/
def whole : Machine.Reply (Except Error Unit) → EStateM.Result Error State Unit
  | ⟨.ok (), machine, log⟩ => .ok () { machine, log }
  | ⟨.error e, machine, log⟩ => .error e { machine, log }

theorem run_prepare (rom : Rom) :
    (prepare rom).run { machine := m, log } =
      match Machine.imageOf rom with
      | .error e => .error e { machine := m, log }
      | .ok image => .ok image { machine := m, log := log ++ [Machine.loadedEntry rom] } := by
  simp only [prepare, Memory.clear_eq, Machine.imageOf]
  cases Memory.initial.load rom.data <;> rfl

/-- The writes of a reset are all that a restart writes. -/
theorem run_reset :
    reset.run { machine := m, log } =
      .ok () { machine := m.restart, log := log ++ [.reset m.name] } := by
  have hscreen : ({ m.restart with screen := m.screen.clear } : Machine) = m.restart := by
    rw [Screen.clear_eq]
    rfl
  rw [← hscreen]
  rfl

/-- **The work of loading has the whole effect or none.** -/
theorem run_load (rom : Rom) : (load rom).run { machine := m } = whole (m.load rom) := by
  simp only [load, EStateM.run_bind, run_prepare, Machine.load]
  cases Machine.imageOf rom with
  | error e => rfl
  | ok image => exact run_reset { m with name := rom.name, image } [Machine.loadedEntry rom]

end Setup

/-! ### The machine afterwards -/

namespace Machine

variable {m : Machine} {rom : Rom} {environment : Nat → Byte}

theorem load_of_refused {config : Config} {e : Error}
    (h : new rom config environment = .error e) :
    m.load rom = ⟨.error e, m, []⟩ := by
  rw [new] at h
  cases hi : imageOf rom with
  | error e' => rw [hi] at h; cases h; simp only [load, hi]
  | ok image => rw [hi] at h; cases h

theorem load_of_accepted {config : Config} {fresh : Machine} {log : Log}
    (h : new rom config environment = .ok (fresh, log)) (hc : m.config = config) :
    m.load rom = ⟨.ok (), fresh.setGenerator m.generator, log ++ [.reset rom.name]⟩ := by
  rw [new] at h
  cases hi : imageOf rom with
  | error e => rw [hi] at h; cases h
  | ok image => rw [hi] at h; cases h; subst hc; simp only [load, hi]; rfl

/-- The memory of a new machine is the font and the program, and zeros elsewhere; the image is the
same. -/
theorem toList_memory_of_new {config : Config} {fresh : Machine} {log : Log}
    (h : new rom config environment = .ok (fresh, log)) :
    fresh.image = fresh.memory ∧ fresh.memory.cells.toList =
      Font.bytes ++ .replicate (Memory.origin - Font.bytes.length) 0 ++ rom.data ++
        .replicate (Memory.size - (Memory.origin + rom.data.length)) 0 := by
  obtain ⟨image, hl, rfl⟩ := boot_of_new h
  exact ⟨rfl, Memory.toList_load hl⟩

/-- **A machine with another program is a new one, or is as it was.**  Take any machine, whatever
it has run and whether it has halted, and any program. The machine refuses the program exactly if
there is no new machine for it, and for the same reason, and then it is unchanged, a halt included.
Otherwise it is the new machine with the same choices, its memory cell by cell the font, the program
and zeros; only the random bytes go on where they are, whatever the environment has for a new
machine. The writes, one after the other, come to just that. -/
theorem load_eq_new (m : Machine) (rom : Rom) (environment : Nat → Byte) :
    (Setup.load rom).run { machine := m } = Setup.whole (m.load rom) ∧
      (∀ e, (m.load rom).result = .error e ↔ new rom m.config environment = .error e) ∧
      (∀ e, new rom m.config environment = .error e →
        (m.load rom).machine = m ∧ (m.load rom).log = []) ∧
      ∀ fresh log, new rom m.config environment = .ok (fresh, log) →
        (m.load rom).result = .ok () ∧
          (m.load rom).machine = fresh.setGenerator m.generator ∧
          (m.load rom).log = log ++ [.reset rom.name] ∧
          fresh.image = fresh.memory ∧
          fresh.memory.cells.toList =
            Font.bytes ++ .replicate (Memory.origin - Font.bytes.length) 0 ++ rom.data ++
              .replicate (Memory.size - (Memory.origin + rom.data.length)) 0 := by
  refine ⟨Setup.run_load m rom, fun e => ?_, fun e he => ?_, fun fresh log hnew => ?_⟩
  · cases hnew : new rom m.config environment with
    | error e' => simp only [load_of_refused hnew, Except.error.injEq]
    | ok made =>
      obtain ⟨fresh, log⟩ := made
      simp only [load_of_accepted hnew rfl, reduceCtorEq]
  · rw [load_of_refused he]
    exact ⟨rfl, rfl⟩
  · obtain ⟨himage, hcells⟩ := toList_memory_of_new hnew
    rw [load_of_accepted hnew rfl]
    exact ⟨rfl, rfl, rfl, himage, hcells⟩

/-- A machine that has halted with a key down, a program that it accepts and one that it refuses. -/
theorem load_eq_new_returning :
    let m := { returning .halt with
      halted := some (.stack .underflow), keypad := .ofKeys [3], generator := .ofSeed 7 }
    let image := Memory.initial.blit Memory.origin [0x00, 0xE0]
    (m.load ⟨"wipe", [0x00, 0xE0]⟩).result = .ok () ∧
      (m.load ⟨"wipe", [0x00, 0xE0]⟩).machine =
        (boot "wipe" image m.config .zeros).setGenerator (.ofSeed 7) ∧
      (m.load ⟨"", []⟩).result = .error (.rom .empty) ∧ (m.load ⟨"", []⟩).machine = m := by
  intro m image
  have haccepted : new ⟨"wipe", [0x00, 0xE0]⟩ m.config =
      .ok (boot "wipe" image m.config .zeros, [.loaded "wipe" 2]) := rfl
  have hrefused : new ⟨"", []⟩ m.config = .error (.rom .empty) := rfl
  obtain ⟨hok, hmachine, -⟩ := (load_eq_new m _ _).2.2.2 _ _ haccepted
  obtain ⟨-, hresult, hkept, -⟩ := load_eq_new m ⟨"", []⟩ fun _ => 0
  exact ⟨hok, hmachine, (hresult _).2 hrefused, (hkept _ hrefused).1⟩

end Machine

end Chip8
