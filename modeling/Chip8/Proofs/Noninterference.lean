import Chip8.Proofs.Devices
import Chip8.Proofs.Faults

/-!
# Who reads a device

Two machines that differ in a single device go the same way, with the same answers and the same log,
until an instruction that looks at the device is executed; and whatever the device holds reaches no
other part of the machine.

* `Device.readers` : the rows whose instructions look at a device.
* `Machine.SameBut` : two machines differ in one device at most.
* `Machine.step_without_of_not_executesAny` : a step does not see a device unless it executes a
  reader of it; a reader that faults has not looked.
* `Machine.sources` : the machines that the steps among some requests start from.
* `Machine.noninterference` : **a device is read by its own instructions only.**
-/

namespace Chip8

namespace Device

/-- The rows whose instructions look at the device; none looks at the sound timer. -/
def readers : Device → List String
  | delay => ["FX07"]
  | sound => []
  | keypad => ["EX9E", "EXA1", "FX0A"]
  | generator => ["CXNN"]
  | screen => ["DXYN"]

/-- The device alone, among all of them. -/
def only (d other : Device) : Bool := other = d

theorem inRows_readers {i : Instruction} {d : Device} (h : i.reads d = true) :
    i.InRows d.readers := by
  cases i with
  | readDelay => cases d <;> cases h; exact ⟨"FX07", by simp [readers], rfl⟩
  | skip c =>
    cases c with
    | pressed => cases d <;> cases h; exact ⟨"EX9E", by simp [readers], rfl⟩
    | released => cases d <;> cases h; exact ⟨"EXA1", by simp [readers], rfl⟩
    | _ => cases d <;> cases h
  | readKey => cases d <;> cases h; exact ⟨"FX0A", by simp [readers], rfl⟩
  | random => cases d <;> cases h; exact ⟨"CXNN", by simp [readers], rfl⟩
  | draw => cases d <;> cases h; exact ⟨"DXYN", by simp [readers], rfl⟩
  | _ => cases d <;> cases h

end Device

namespace Machine

/-! ### One device apart -/

/-- `n` is the same machine as `m` but for what the device `d` holds. -/
structure SameBut (d : Device) (m n : Machine) : Prop where
  name : n.name = m.name
  opcode : n.opcode = m.opcode
  image : n.image = m.image
  memory : n.memory = m.memory
  registers : n.registers = m.registers
  delay : d ≠ .delay → n.timers.delay = m.timers.delay
  sound : d ≠ .sound → n.timers.sound = m.timers.sound
  screen : d ≠ .screen → n.screen = m.screen
  keypad : d ≠ .keypad → n.keypad = m.keypad
  generator : d ≠ .generator → n.generator = m.generator
  config : n.config = m.config
  halted : n.halted = m.halted

variable {d : Device} {m n : Machine}

theorem hide_eq_iff {α : Type} {hidden : Bool} {a x y : α} :
    hide hidden a x = hide hidden a y ↔ (hidden = false → x = y) := by
  cases hidden <;> simp [hide]

theorem sameBut_iff : SameBut d m n ↔ n.without d.only = m.without d.only := by
  simp only [without, Machine.mk.injEq, Timers.mk.injEq, hide_eq_iff, Device.only,
    decide_eq_false_iff_not]
  constructor
  · intro h
    exact ⟨h.name, h.opcode, h.image, h.memory, h.registers,
      ⟨fun hd => h.delay (Ne.symm hd), fun hd => h.sound (Ne.symm hd)⟩,
      fun hd => h.screen (Ne.symm hd), fun hd => h.keypad (Ne.symm hd),
      fun hd => h.generator (Ne.symm hd), h.config, h.halted⟩
  · rintro ⟨hname, hopcode, himage, hmemory, hregisters, ⟨hdelay, hsound⟩, hscreen, hkeypad,
      hgenerator, hconfig, hhalted⟩
    exact ⟨hname, hopcode, himage, hmemory, hregisters, fun hd => hdelay (Ne.symm hd),
      fun hd => hsound (Ne.symm hd), fun hd => hscreen (Ne.symm hd),
      fun hd => hkeypad (Ne.symm hd), fun hd => hgenerator (Ne.symm hd), hconfig, hhalted⟩

/-! ### Steps -/

/-- A fault is met without any device. -/
theorem fault?_without (hidden : Device → Bool) (m : Machine) (i : Instruction) :
    (m.without hidden).fault? i = m.fault? i := by
  cases i <;> rfl

/-- What the next step executes is the same without any device. -/
theorem executesAny_without (hidden : Device → Bool) (m : Machine) {rows : List String} :
    (m.without hidden).ExecutesAny rows ↔ m.ExecutesAny rows := by
  constructor
  · rintro ⟨w, ⟨hm, hf, hnone⟩, hw⟩
    exact ⟨w, ⟨hm, hf, (fault?_without hidden m _).symm.trans hnone⟩, hw⟩
  · rintro ⟨w, ⟨hm, hf, hnone⟩, hw⟩
    exact ⟨w, ⟨hm, hf, (fault?_without hidden m _).trans hnone⟩, hw⟩

/-- A step that executes no reader of a device either looks at other devices only or meets a fault
before it looks. -/
theorem overlooks_or_faults (h : ¬ m.ExecutesAny d.readers) :
    m.Overlooks d.only ∨ ∃ w f, m.halted = none ∧ m.memory.fetch m.registers.pc = .ok w ∧
      m.fault? (.ofWord w) = some f := by
  by_cases hfaults : ∃ w f, m.halted = none ∧ m.memory.fetch m.registers.pc = .ok w ∧
      m.fault? (.ofWord w) = some f
  · exact .inr hfaults
  left
  intro i hi other hother
  obtain ⟨w, hm, hf, rfl⟩ := exists_of_next? hi
  have hnone : m.fault? (.ofWord w) = none := by
    rw [Option.eq_none_iff_forall_ne_some]
    exact fun f hfault => hfaults ⟨w, f, hm, hf, hfault⟩
  refine decide_eq_false ?_
  rintro rfl
  exact h ⟨w, ⟨hm, hf, hnone⟩, Instruction.fitsAny_of_inRows (Device.inRows_readers hother)⟩

/-- **A step does not see a device unless it executes a reader of it.** -/
theorem step_without_of_not_executesAny (h : ¬ m.ExecutesAny d.readers) :
    (m.without d.only).step.over (without d.only) = m.step.over (without d.only) := by
  rcases overlooks_or_faults h with hlook | ⟨w, f, hm, hf, hfault⟩
  · exact step_without hlook
  · have hfault' := (fault?_without d.only m _).trans hfault
    rw [step_of_fault? hm hf hfault, step_of_fault? (m := m.without d.only) hm hf hfault',
      afterFault_without]

theorem SameBut.step (hmn : SameBut d m n) (h : ¬ m.ExecutesAny d.readers) :
    n.step.result = m.step.result ∧ n.step.log = m.step.log ∧
      SameBut d m.step.machine n.step.machine := by
  have hwithout := sameBut_iff.1 hmn
  have hn : ¬ n.ExecutesAny d.readers := by
    rwa [← executesAny_without d.only, hwithout, executesAny_without]
  have hstep : n.step.over (without d.only) = m.step.over (without d.only) := by
    rw [← step_without_of_not_executesAny hn, hwithout, step_without_of_not_executesAny h]
  simp only [Reply.over, Reply.mk.injEq] at hstep
  obtain ⟨hresult, hmachine, hlog⟩ := hstep
  exact ⟨hresult, hlog, sameBut_iff.2 hmachine⟩

/-! ### Requests -/

/-- The machines that the steps among some requests start from. -/
def sources (m : Machine) : List Command → List Machine
  | [] => []
  | .step :: commands => m :: m.step.machine.sources commands
  | command :: commands => (m.perform command).machine.sources commands

theorem SameBut.perform (hmn : SameBut d m n) (command : Command)
    (h : command = .step → ¬ m.ExecutesAny d.readers) :
    (n.perform command).result = (m.perform command).result ∧
      (n.perform command).log = (m.perform command).log ∧
      SameBut d (m.perform command).machine (n.perform command).machine := by
  have hrestart : ∀ {k l : Machine}, SameBut d k l → SameBut d k.restart l.restart := by
    intro k l hkl
    exact ⟨hkl.name, rfl, hkl.image, hkl.image, rfl, fun _ => rfl, fun _ => rfl, fun _ => rfl,
      fun _ => rfl, hkl.generator, hkl.config, rfl⟩
  cases command with
  | step => exact hmn.step (h rfl)
  | setKeypad keys => exact ⟨rfl, rfl, { hmn with keypad := fun _ => rfl }⟩
  | tickTimers =>
    refine ⟨rfl, rfl, { hmn with delay := fun hd => ?_, sound := fun hd => ?_ }⟩
    · exact congrArg Timers.countdown (hmn.delay hd)
    · exact congrArg Timers.countdown (hmn.sound hd)
  | setGenerator g => exact ⟨rfl, rfl, { hmn with generator := fun _ => rfl }⟩
  | reset => exact ⟨rfl, congrArg (fun name => [Log.Entry.reset name]) hmn.name, hrestart hmn⟩
  | load rom =>
    simp only [Machine.perform, load]
    cases imageOf rom with
    | error e => exact ⟨rfl, rfl, hmn⟩
    | ok image =>
      exact ⟨rfl, rfl, hrestart { hmn with name := rfl, image := rfl }⟩

theorem SameBut.performAll (hmn : SameBut d m n) (commands : List Command)
    (h : ∀ s ∈ m.sources commands, ¬ s.ExecutesAny d.readers) :
    (n.performAll commands).result = (m.performAll commands).result ∧
      (n.performAll commands).log = (m.performAll commands).log ∧
      SameBut d (m.performAll commands).machine (n.performAll commands).machine := by
  induction commands generalizing m n with
  | nil => exact ⟨rfl, rfl, hmn⟩
  | cons command commands ih =>
    have hstep : command = .step → ¬ m.ExecutesAny d.readers := by
      rintro rfl
      exact h m List.mem_cons_self
    have hsources : (m.perform command).machine.sources commands ⊆
        m.sources (command :: commands) := by
      cases command with
      | step => exact List.subset_cons_self ..
      | _ => exact List.Subset.refl _
    obtain ⟨hresult, hlog, hmachine⟩ := hmn.perform command hstep
    obtain ⟨hresults, hlogs, hend⟩ := ih hmachine fun s hs => h s (hsources hs)
    simp only [Machine.performAll, hresult, hlog, hresults, hlogs, true_and]
    exact hend

/-- **A device is read by its own instructions only.**  Ask the same of two machines that differ in
one device: steps, keys handed over, decrements of the timers, and whatever else a machine can be
asked. They give the same answers and the same log, and are left differing in this device at most:
always if it is the sound timer; the delay timer as long as no `FX07` is executed, the keys as long
as no `EX9E`, `EXA1` or `FX0A` is, the random bytes as long as no `CXNN` is, and the pixels as long
as no `DXYN` is. -/
theorem noninterference {d : Device} {m n : Machine} (hmn : SameBut d m n)
    (commands : List Command)
    (h : d ≠ .sound → ∀ s ∈ m.sources commands, ¬ s.ExecutesAny d.readers) :
    (n.performAll commands).result = (m.performAll commands).result ∧
      (n.performAll commands).log = (m.performAll commands).log ∧
      SameBut d (m.performAll commands).machine (n.performAll commands).machine := by
  refine hmn.performAll commands fun s hs => ?_
  by_cases hd : d = .sound
  · rintro ⟨w, -, hw⟩
    rw [hd] at hw
    cases hw
  · exact h hd s hs

/-- A machine whose program jumps to itself. -/
def spinning (timers : Timers) : Machine :=
  { boot "" (Memory.initial.blit Memory.origin [0x12, 0x00]) {} .zeros with timers }

/-- Two machines that differ in the delay timer, before a step and a decrement and behind them. -/
theorem noninterference_spinning :
    let commands := [.step, .tickTimers]
    SameBut .delay (spinning ⟨1, 3⟩) (spinning ⟨9, 3⟩) ∧
      (∀ s ∈ (spinning ⟨1, 3⟩).sources commands, ¬ s.ExecutesAny ["FX07"]) ∧
      ((spinning ⟨9, 3⟩).performAll commands).result =
        ((spinning ⟨1, 3⟩).performAll commands).result ∧
      ((spinning ⟨9, 3⟩).performAll commands).machine.timers.sound =
        ((spinning ⟨1, 3⟩).performAll commands).machine.timers.sound := by
  intro commands
  have hapart : SameBut .delay (spinning ⟨1, 3⟩) (spinning ⟨9, 3⟩) :=
    ⟨rfl, rfl, rfl, rfl, rfl, fun h => absurd rfl h, fun _ => rfl, fun _ => rfl, fun _ => rfl,
      fun _ => rfl, rfl, rfl⟩
  have hnew : Machine.new ⟨"", [0x12, 0x00]⟩ {} = .ok (spinning {}, [.loaded "" 2]) := rfl
  have hfetch : (spinning ⟨1, 3⟩).memory.fetch 0x200 = .ok 0x1200 :=
    (fetch_of_new hnew (k := 0) (by decide)).trans rfl
  have hreads : ∀ s ∈ (spinning ⟨1, 3⟩).sources commands, ¬ s.ExecutesAny ["FX07"] := by
    intro s hs
    obtain rfl := List.mem_singleton.1 hs
    rintro ⟨w, hw, hfits⟩
    rw [← Except.ok.inj (hfetch.symm.trans hw.fetched)] at hfits
    revert hfits
    decide
  obtain ⟨hresult, -, hend⟩ := noninterference hapart commands fun _ => hreads
  exact ⟨hapart, hreads, hresult, hend.sound (by decide)⟩

end Machine

end Chip8
