import Chip8.Proofs.Countdown
import Chip8.Proofs.Devices
import Chip8.Proofs.Stepping
import Mathlib.Algebra.GroupWithZero.Nat

/-!
# How many instructions a tick has

The number of instructions in a tick decides when the timers move, and nothing else. A program that
does not read the delay timer goes the same way however its instructions are spread over ticks.

* `Machine.untimed` : a machine without what its timers show.
* `Machine.ReadsDelay` : the next step is an `FX07`.
* `Console.starts` : the machines that the steps of some ticks start from.
* `Machine.run_add_of_error`, `Machine.run_add_of_ok` : a run in two pieces.
* `Console.Cuts`, `Console.cuts_of_not_readsDelay` : ticks are one run, cut into pieces.
* `Console.throughput` : **two ways to cut the same instructions into ticks** have the same steps.
-/

namespace Chip8

namespace Machine

variable {m n : Machine}

/-! ### Without the timers -/

/-- The machine with both timers at zero; machines with the same one agree on everything but their
timers. -/
def untimed (m : Machine) : Machine := { m with timers := {} }

@[simp] theorem untimed_tickTimers (m : Machine) : m.tickTimers.untimed = m.untimed := rfl

/-- The timers among the devices. -/
def clocks : Device → Bool
  | .delay | .sound => true
  | .keypad | .generator | .screen => false

theorem untimed_eq : untimed = without clocks := rfl

/-- The next step fetches an `FX07`. -/
def ReadsDelay (m : Machine) : Prop := ∃ x, m.next? = some (.readDelay x)

/-- Only an `FX07` looks at a timer. -/
theorem exists_of_reads_clock {i : Instruction} {d : Device} (hd : clocks d = true)
    (hi : i.reads d = true) : ∃ x, i = .readDelay x := by
  cases d with
  | keypad | generator | screen => cases hd
  | sound =>
    cases i with
    | skip c => cases c <;> cases hi
    | _ => cases hi
  | delay =>
    cases i with
    | readDelay x => exact ⟨x, rfl⟩
    | skip c => cases c <;> cases hi
    | _ => cases hi

theorem overlooks_clocks (h : ¬ m.ReadsDelay) : m.Overlooks clocks := by
  intro i hi d hd
  cases hc : clocks d with
  | false => rfl
  | true =>
    obtain ⟨x, rfl⟩ := exists_of_reads_clock hc hd
    exact absurd ⟨x, hi⟩ h

theorem readsDelay_congr (h : m.untimed = n.untimed) : m.ReadsDelay ↔ n.ReadsDelay := by
  rw [untimed_eq] at h
  rw [ReadsDelay, ReadsDelay, next?_congr h]

/-- A run without an `FX07` is the same run whatever the timers show. -/
theorem run_untimed (h : m.untimed = n.untimed) (k : Nat)
    (hread : (∀ s ∈ m.starts k, ¬ s.ReadsDelay) ∨ ∀ s ∈ n.starts k, ¬ s.ReadsDelay) :
    (m.starts k).map untimed = (n.starts k).map untimed ∧
      (m.run k).over untimed = (n.run k).over untimed := by
  rw [untimed_eq] at h ⊢
  rcases hread with hread | hread
  · exact run_congr rfl h k fun s hs => overlooks_clocks (hread s hs)
  · obtain ⟨hstarts, hrun⟩ := run_congr rfl h.symm k fun s hs => overlooks_clocks (hread s hs)
    exact ⟨hstarts.symm, hrun.symm⟩

theorem not_readsDelay_of_map_untimed {l l' : List Machine} (h : l.map untimed = l'.map untimed)
    (hread : ∀ s ∈ l, ¬ s.ReadsDelay) : ∀ s ∈ l', ¬ s.ReadsDelay := by
  intro s hs
  have hmem : s.untimed ∈ l.map untimed := h ▸ List.mem_map_of_mem hs
  obtain ⟨t, ht, hts⟩ := List.mem_map.1 hmem
  exact fun hr => hread t ht ((readsDelay_congr hts).2 hr)

/-- Steps from the same machines but for the timers leave the same behind but for the timers. -/
theorem map_step_of_map_untimed {l l' : List Machine} (h : l.map untimed = l'.map untimed)
    (hread : ∀ s ∈ l, ¬ s.ReadsDelay) :
    l.map (·.step.over untimed) = l'.map (·.step.over untimed) := by
  induction l generalizing l' with
  | nil => rw [List.map_eq_nil_iff.1 h.symm]
  | cons s l ih =>
    cases l' with
    | nil => cases h
    | cons s' l' =>
      simp only [List.map_cons, List.cons.injEq] at h ⊢
      obtain ⟨hhead, htail⟩ := h
      have hrest := ih htail fun t ht => hread t (List.mem_cons_of_mem _ ht)
      rw [untimed_eq] at hhead hrest ⊢
      exact ⟨step_congr hhead (overlooks_clocks (hread s List.mem_cons_self)), hrest⟩

/-! ### Runs in two pieces -/

/-- A run that fails does not go on. -/
theorem run_add_of_error {a : Nat} {e : Error} (h : (m.run a).error = some e) (b : Nat) :
    m.starts (a + b) = m.starts a ∧ m.run (a + b) = m.run a := by
  induction a generalizing m with
  | zero => cases h
  | succ a ih =>
    rw [Nat.add_right_comm]
    cases hs : m.step.result with
    | error e' =>
      rw [starts_of_error hs, starts_of_error hs, run_of_error hs, run_of_error hs]
      exact ⟨rfl, rfl⟩
    | ok effect =>
      rw [run_of_ok hs] at h
      obtain ⟨hstarts, hrun⟩ := ih h
      rw [starts_of_ok hs, starts_of_ok hs, run_of_ok hs, run_of_ok hs, hstarts, hrun]
      exact ⟨rfl, rfl⟩

/-- A run that does not fail goes on with the machine that it leaves behind. -/
theorem run_add_of_ok {a : Nat} (h : (m.run a).error = none) (b : Nat) :
    m.starts (a + b) = m.starts a ++ (m.run a).machine.starts b ∧
      m.run (a + b) =
        { effects := (m.run a).effects ++ ((m.run a).machine.run b).effects
          signals := (m.run a).signals ++ ((m.run a).machine.run b).signals
          error := ((m.run a).machine.run b).error
          machine := ((m.run a).machine.run b).machine
          log := (m.run a).log ++ ((m.run a).machine.run b).log } := by
  induction a generalizing m with
  | zero => rw [Nat.zero_add]; exact ⟨rfl, rfl⟩
  | succ a ih =>
    rw [Nat.add_right_comm]
    cases hs : m.step.result with
    | error e => rw [run_of_error hs] at h; cases h
    | ok effect =>
      rw [run_of_ok hs] at h
      obtain ⟨hstarts, hrun⟩ := ih h
      rw [starts_of_ok hs, starts_of_ok hs, run_of_ok hs, run_of_ok hs, hstarts, hrun]
      simp only [List.cons_append, List.append_assoc, and_self]

theorem starts_subset_add (m : Machine) (a b : Nat) : m.starts a ⊆ m.starts (a + b) := by
  cases h : (m.run a).error with
  | some e => rw [(run_add_of_error h b).1]; exact fun _ hs => hs
  | none => rw [(run_add_of_ok h b).1]; exact List.subset_append_left ..

/-- A run that does not fail takes all of its steps. -/
theorem length_effects_of_ok {a : Nat} (h : (m.run a).error = none) :
    (m.run a).effects.length = a := by
  induction a generalizing m with
  | zero => rfl
  | succ a ih =>
    cases hs : m.step.result with
    | error e => rw [run_of_error hs] at h; cases h
    | ok effect => rw [run_of_ok hs] at h ⊢; rw [List.length_cons, ih h]

end Machine

namespace Console

/-- Ticks with the same keys. -/
def Command.ticksWith (keys : Keypad) (counts : List Nat) : List Command :=
  Command.ticks (counts.map fun n => (keys, n))

/-- The machines that the steps of some ticks start from, up to the first step that fails. -/
def starts (keys : Keypad) : List Nat → Console → List Machine
  | [], _ => []
  | n :: counts, c =>
    (c.machine.setKeypad keys).starts n ++
      match (c.tick keys n).result with
      | .error _ => []
      | .ok _ => starts keys counts (c.tick keys n).console

variable {c : Console} {m : Machine} {keys : Keypad} {f : Fault}

/-! ### The first of some ticks -/

section

variable {n : Nat} {counts : List Nat}

theorem starts_of_tick_error {e : Error} (h : (c.tick keys n).result = .error e) :
    c.starts keys (n :: counts) = (c.machine.setKeypad keys).starts n := by
  simp only [starts, h, List.append_nil]

theorem starts_of_tick_ok {summary : Summary} (h : (c.tick keys n).result = .ok summary) :
    c.starts keys (n :: counts) =
      (c.machine.setKeypad keys).starts n ++ (c.tick keys n).console.starts keys counts := by
  simp only [starts, h]

theorem starts_singleton (c : Console) (keys : Keypad) (n : Nat) :
    c.starts keys [n] = (c.machine.setKeypad keys).starts n := by
  cases h : (c.tick keys n).result with
  | error e => exact starts_of_tick_error h
  | ok summary => exact (starts_of_tick_ok h).trans (List.append_nil _)

theorem find?_ticksWith_of_error {e : Error} (h : (c.tick keys n).result = .error e) :
    (c.performAll (Command.ticksWith keys (n :: counts))).result.find? (!·.isOk) =
      some (.error e) := by
  have hhead : (c.perform (.tick keys n)).result = .error e := by rw [perform, h]; rfl
  rw [← hhead]
  exact List.find?_cons_of_pos (by rw [hhead]; rfl)

theorem find?_ticksWith_of_ok {summary : Summary} (h : (c.tick keys n).result = .ok summary) :
    (c.performAll (Command.ticksWith keys (n :: counts))).result.find? (!·.isOk) =
      ((c.tick keys n).console.performAll (Command.ticksWith keys counts)).result.find?
        (!·.isOk) := by
  have hhead : (c.perform (.tick keys n)).result = .ok (.ticked summary) := by rw [perform, h]; rfl
  exact List.find?_cons_of_neg (by rw [hhead]; exact Bool.false_ne_true)

end

/-! ### Ticks and runs -/

open Machine (untimed)

/-- But for the timers and for the speaker, a tick is the run of its machine. -/
theorem tick_untimed (c : Console) (keys : Keypad) (n : Nat) :
    (c.tick keys n).signals.filter (·.toDisplay) = (c.runWith keys n).signals ∧
      (c.tick keys n).console.machine.untimed = (c.runWith keys n).machine.untimed := by
  have hshown := filter_toDisplay_runWith c keys n
  cases he : (c.runWith keys n).error with
  | some e => rw [tick_of_error he]; exact ⟨hshown, rfl⟩
  | none =>
    rw [tick_of_ok he]
    refine ⟨?_, ?_⟩
    · simp only [List.filter_append, hshown, filter_toDisplay_finishTick, List.append_nil]
    · simp only [machine_finishTick, Machine.untimed_tickTimers]
      rfl

/-- What the display is told in the first tick and in the others. -/
theorem filter_toDisplay_ticksWith_cons (c : Console) (keys : Keypad) (n : Nat)
    (counts : List Nat) :
    (c.performAll (Command.ticksWith keys (n :: counts))).signals.filter (·.toDisplay) =
      (c.runWith keys n).signals ++ ((c.tick keys n).console.performAll
        (Command.ticksWith keys counts)).signals.filter (·.toDisplay) := by
  obtain ⟨hshown, -⟩ := c.tick_untimed keys n
  rw [← hshown, ← List.filter_append]
  rfl

theorem untimed_setKeypad (hc : c.machine.untimed = m.untimed) (hk : m.keypad = keys) :
    (c.machine.setKeypad keys).untimed = m.untimed := by
  subst hk
  exact congrArg (·.setKeypad m.keypad) hc

/-- A halted machine draws nothing, and only its timers go on. -/
theorem ticksWith_of_halted (hc : c.machine.untimed = m.untimed) (hm : m.halted = some f)
    (hk : m.keypad = keys) (counts : List Nat) :
    let reply := c.performAll (Command.ticksWith keys counts)
    reply.signals.filter (·.toDisplay) = [] ∧ reply.console.machine.untimed = m.untimed := by
  induction counts generalizing c with
  | nil => exact ⟨rfl, hc⟩
  | cons n counts ih =>
    obtain ⟨-, hmachine⟩ := c.tick_untimed keys n
    have hset := untimed_setKeypad hc hk
    have hhalted : (c.machine.setKeypad keys).halted = some f :=
      (congrArg (·.halted) hset).trans hm
    obtain ⟨hsignals, hkept⟩ := Machine.quiet_run_of_halted hhalted n
    obtain ⟨hrest, hlast⟩ := ih (c := (c.tick keys n).console)
      (hmachine.trans ((congrArg untimed hkept).trans hset))
    refine ⟨?_, hlast⟩
    rw [filter_toDisplay_ticksWith_cons, hrest]
    exact congrArg (· ++ []) hsignals

/-- Ticks of a console do what a run of as many instructions does, but for the timers. -/
structure Cuts (keys : Keypad) (counts : List Nat) (c : Console) (m : Machine) : Prop where
  /-- The steps start from the same machines. -/
  starts : (c.starts keys counts).map untimed = (m.starts counts.sum).map untimed
  /-- The first tick that fails has the error of the run. -/
  error : (c.performAll (Command.ticksWith keys counts)).result.find? (!·.isOk) =
    (m.run counts.sum).error.map .error
  /-- The display is told the same. -/
  signals : (c.performAll (Command.ticksWith keys counts)).signals.filter (·.toDisplay) =
    (m.run counts.sum).signals
  /-- They end in the same machine. -/
  machine : (c.performAll (Command.ticksWith keys counts)).console.machine.untimed =
    (m.run counts.sum).machine.untimed

/-- **Ticks are one run, cut into pieces.**  Ticks with the keys that the machine has anyway do what
a run of as many instructions does, if either of them executes no `FX07`. -/
theorem cuts_of_not_readsDelay (hc : c.machine.untimed = m.untimed) (hk : m.keypad = keys)
    (counts : List Nat)
    (hread : (∀ s ∈ c.starts keys counts, ¬ s.ReadsDelay) ∨
      ∀ s ∈ m.starts counts.sum, ¬ s.ReadsDelay) :
    Cuts keys counts c m := by
  induction counts generalizing c m with
  | nil => exact ⟨rfl, rfl, rfl, hc⟩
  | cons n counts ih =>
    obtain ⟨-, hmachine⟩ := c.tick_untimed keys n
    -- the first tick is the first piece of the run
    obtain ⟨hstarts, hrun⟩ := Machine.run_untimed (untimed_setKeypad hc hk) n <|
      hread.imp (fun h s hs => h s (List.mem_append_left _ hs)) fun h s hs =>
        h s (m.starts_subset_add n counts.sum hs)
    have herror : (c.runWith keys n).error = (m.run n).error := congrArg (·.error) hrun
    have hsignals : (c.runWith keys n).signals = (m.run n).signals := congrArg (·.signals) hrun
    have hfirst : (c.tick keys n).console.machine.untimed = (m.run n).machine.untimed :=
      hmachine.trans (congrArg (·.machine) hrun)
    have hkeys : (m.run n).machine.keypad = keys := (m.unwritten_of_run n).keypad.trans hk
    have hsplit := filter_toDisplay_ticksWith_cons c keys n counts
    cases he : (m.run n).error with
    | some e =>
      have htick : (c.tick keys n).result = .error e := by rw [tick_of_error (herror.trans he)]
      obtain ⟨hadd, hadd'⟩ := Machine.run_add_of_error he counts.sum
      obtain ⟨f, hf⟩ := Machine.halted_of_run_error he
      obtain ⟨hquiet, hlast⟩ := ticksWith_of_halted hfirst hf hkeys counts
      constructor
      case starts =>
        rw [starts_of_tick_error htick, List.sum_cons, hadd]
        exact hstarts
      case error =>
        rw [List.sum_cons, hadd', he, find?_ticksWith_of_error htick]
        rfl
      case signals => rw [hsplit, hquiet, List.append_nil, List.sum_cons, hadd', hsignals]
      case machine => rw [List.sum_cons, hadd']; exact hlast
    | none =>
      have htick : (c.tick keys n).result = .ok (c.runWith keys n).summary := by
        rw [tick_of_ok (herror.trans he)]
      obtain ⟨hadd, hadd'⟩ := Machine.run_add_of_ok he counts.sum
      have hrest := ih hfirst hkeys <|
        hread.imp (fun h s hs => h s (by
            rw [starts_of_tick_ok htick]
            exact List.mem_append_right _ hs)) fun h s hs => h s (by
          rw [List.sum_cons, hadd]
          exact List.mem_append_right _ hs)
      constructor
      case starts =>
        rw [starts_of_tick_ok htick, List.sum_cons, hadd, List.map_append, List.map_append,
          hrest.starts]
        exact congrArg (· ++ _) hstarts
      case error =>
        rw [List.sum_cons, hadd', find?_ticksWith_of_ok htick]
        exact hrest.error
      case signals => rw [hsplit, hrest.signals, List.sum_cons, hadd', hsignals]
      case machine => rw [List.sum_cons, hadd']; exact hrest.machine

/-- The same with the keys that the first tick hands over. -/
theorem cuts_of_setKeypad (hm : m = c.machine.setKeypad keys) {counts : List Nat}
    (hpos : 0 < counts.sum)
    (hread : (∀ s ∈ c.starts keys counts, ¬ s.ReadsDelay) ∨
      ∀ s ∈ m.starts counts.sum, ¬ s.ReadsDelay) :
    Cuts keys counts c m := by
  subst hm
  cases counts with
  | nil => cases hpos
  | cons n counts =>
    -- the first tick does the same on a console that has the keys already
    have hcuts := cuts_of_not_readsDelay (c := c.withMachine (c.machine.setKeypad keys))
      (m := c.machine.setKeypad keys) rfl rfl (n :: counts) hread
    exact ⟨hcuts.starts, hcuts.error, hcuts.signals, hcuts.machine⟩

theorem Cuts.replies {counts : List Nat} (h : Cuts keys counts c m)
    (hread : ∀ s ∈ m.starts counts.sum, ¬ s.ReadsDelay) :
    (c.starts keys counts).map (·.step.over untimed) =
      (m.starts counts.sum).map (·.step.over untimed) :=
  (Machine.map_step_of_map_untimed h.starts.symm hread).symm

theorem Cuts.results {counts : List Nat} (h : Cuts keys counts c m)
    (hread : ∀ s ∈ m.starts counts.sum, ¬ s.ReadsDelay) :
    (c.starts keys counts).map (·.step.result) =
      (m.run counts.sum).effects.map .ok ++ (m.run counts.sum).error.toList.map .error := by
  have hresults := congrArg (·.map (·.result)) (h.replies hread)
  simp only [List.map_map] at hresults
  exact hresults.trans (m.results_starts counts.sum)

theorem Cuts.machines {counts : List Nat} (h : Cuts keys counts c m)
    (hread : ∀ s ∈ m.starts counts.sum, ¬ s.ReadsDelay) :
    (c.starts keys counts).map (·.step.machine.untimed) =
      (m.starts counts.sum).map (·.step.machine.untimed) := by
  have hmachines := congrArg (·.map (·.machine)) (h.replies hread)
  simp only [List.map_map] at hmachines
  exact hmachines

/-- **Only the timers see how instructions are spread over ticks.**  Take two consoles with the same
machine, and ticks with the same keys and with the same number of instructions in total, a positive
one. If the first console executes no `FX07`, both take the same steps, up to the first that fails
or to the last one: the steps answer the same and leave the same machines but for the timers, the
display is told the same, and the first tick that fails has the error of the step that fails. Both
consoles end with the same machine but for its timers. -/
theorem throughput {c d : Console} (hmachine : c.machine = d.machine) (keys : Keypad)
    {ns ks : List Nat} (hsum : ns.sum = ks.sum) (hpos : 0 < ns.sum)
    (hread : ∀ s ∈ c.starts keys ns, ¬ s.ReadsDelay) :
    let left := c.performAll (Command.ticksWith keys ns)
    let right := d.performAll (Command.ticksWith keys ks)
    (∃ (effects : List Effect) (error : Option Error),
      (c.starts keys ns).map (·.step.result) = effects.map .ok ++ error.toList.map .error ∧
        (d.starts keys ks).map (·.step.result) = effects.map .ok ++ error.toList.map .error ∧
        (error = none → effects.length = ns.sum) ∧
        left.result.find? (!·.isOk) = error.map .error ∧
        right.result.find? (!·.isOk) = error.map .error) ∧
      (c.starts keys ns).map (·.step.machine.untimed) =
        (d.starts keys ks).map (·.step.machine.untimed) ∧
      left.signals.filter (·.toDisplay) = right.signals.filter (·.toDisplay) ∧
      left.console.machine.untimed = right.console.machine.untimed := by
  intro left right
  obtain ⟨m, hm⟩ : ∃ m, m = c.machine.setKeypad keys := ⟨_, rfl⟩
  have hleft : Cuts keys ns c m := cuts_of_setKeypad hm hpos (.inl hread)
  -- the one run that both are cut from does not read the delay timer either
  have hread' := Machine.not_readsDelay_of_map_untimed hleft.starts hread
  have hright : Cuts keys ks d m :=
    cuts_of_setKeypad (hmachine ▸ hm) (hsum ▸ hpos) (.inr (hsum ▸ hread'))
  refine ⟨⟨(m.run ns.sum).effects, (m.run ns.sum).error, hleft.results hread', ?_,
    Machine.length_effects_of_ok, hleft.error, ?_⟩, ?_, ?_, ?_⟩
  · exact hsum ▸ hright.results (hsum ▸ hread')
  · exact hsum ▸ hright.error
  · exact (hleft.machines hread').trans (hsum ▸ (hright.machines (hsum ▸ hread')).symm)
  · exact hleft.signals.trans (hsum ▸ hright.signals.symm)
  · exact hleft.machine.trans (hsum ▸ hright.machine.symm)

/-- Two instructions in two ticks and in one: the steps are the same, and the delay timer, which was
at 5, is not. -/
theorem throughput_wiping :
    let c : Console := { machine := { wiping with timers := { delay := 5 } } }
    let left := c.performAll (Command.ticksWith .released [1, 1])
    let right := c.performAll (Command.ticksWith .released [2])
    (∀ s ∈ c.starts .released [1, 1], ¬ s.ReadsDelay) ∧
      (c.starts .released [2]).map (·.step.result) =
        [.ok .cleared, .error (.fault (.stack .underflow))] ∧
      (c.starts .released [1, 1]).map (·.step.result) =
        (c.starts .released [2]).map (·.step.result) ∧
      left.signals.filter (·.toDisplay) = right.signals.filter (·.toDisplay) ∧
      left.console.machine.untimed = right.console.machine.untimed ∧
      left.console.machine.timers.delay = 4 ∧ right.console.machine.timers.delay = 5 := by
  intro c left right
  have hnew : Machine.new ⟨"", [0x00, 0xE0, 0x00, 0xEE]⟩ {} = .ok (wiping, _) := rfl
  have h₀ : wiping.memory.fetch 0x200 = .ok 0x00E0 :=
    (Machine.fetch_of_new hnew (k := 0) (by decide)).trans rfl
  have h₂ : wiping.memory.fetch 0x202 = .ok 0x00EE :=
    (Machine.fetch_of_new hnew (k := 2) (by decide)).trans rfl
  -- `m₀` clears the screen; `m₁` returns, with the delay timer wherever it is by then
  obtain ⟨m₀, hm₀⟩ : ∃ m, m = c.machine.setKeypad .released := ⟨_, rfl⟩
  obtain ⟨m₁, hm₁⟩ : ∃ m : Byte → Machine, ∀ b, m b = { wiping with
      opcode := 0x00E0
      registers := { Registers.start with pc := 0x202 }
      timers := { delay := b } } := ⟨_, fun _ => rfl⟩
  have hs₀ : m₀.step.result = .ok .cleared ∧ m₀.step.machine = m₁ 5 := by
    rw [hm₀, Machine.step_of_executed (m := c.machine.setKeypad .released) rfl h₀ rfl, hm₁]
    exact ⟨rfl, rfl⟩
  have hs₁ (b : Byte) : (m₁ b).step.result = .error (.fault (.stack .underflow)) ∧
      (m₁ b).step.machine.timers.delay = b := by
    have hs : (m₁ b).step = (m₁ b).afterFault 0x00EE (.stack .underflow) := by
      rw [hm₁]
      exact Machine.step_of_faulted rfl h₂ rfl
    rw [hs, hm₁]
    exact ⟨rfl, rfl⟩
  have hnext : m₀.next? = some .clearScreen ∧ ∀ b, (m₁ b).next? = some .ret := by
    refine ⟨Machine.next?_of_fetch (w := 0x00E0) (by rw [hm₀]; rfl) (by rw [hm₀]; exact h₀),
      fun b => Machine.next?_of_fetch (w := 0x00EE) (by rw [hm₁]; rfl) (by rw [hm₁]; exact h₂)⟩
  -- the first of the two ticks, and the second
  have hone : (c.tick .released 1).result = .ok ⟨1, 1, 0⟩ ∧
      (c.tick .released 1).console.machine.setKeypad .released = m₁ 4 := by
    have hr : c.runWith .released 1 = _ := Machine.run_of_ok (hm₀ ▸ hs₀.1) 0
    rw [tick_of_ok (by rw [hr]; rfl), hr, machine_finishTick]
    refine ⟨rfl, ?_⟩
    have htimers : ({ delay := 5 } : Timers).tick = { delay := 4 } := by decide
    rw [← hm₀, hs₀.2, hm₁, hm₁, ← htimers]
    rfl
  have hleft : c.starts .released [1, 1] = [m₀, m₁ 4] := by
    rw [starts_of_tick_ok hone.1, starts_singleton, hone.2, ← hm₀, Machine.starts_of_ok hs₀.1,
      Machine.starts_of_error (hs₁ 4).1]
    rfl
  have hright : c.starts .released [2] = [m₀, m₁ 5] := by
    rw [starts_singleton, ← hm₀, Machine.starts_of_ok hs₀.1, hs₀.2,
      Machine.starts_of_error (hs₁ 5).1]
  have hread : ∀ s ∈ c.starts .released [1, 1], ¬ s.ReadsDelay := by
    have hread₀ : ¬ m₀.ReadsDelay := fun ⟨x, hx⟩ => nomatch hnext.1.symm.trans hx
    have hread₁ : ¬ (m₁ 4).ReadsDelay := fun ⟨x, hx⟩ => nomatch (hnext.2 4).symm.trans hx
    rw [hleft]
    exact List.forall_mem_cons.2 ⟨hread₀, List.forall_mem_singleton.2 hread₁⟩
  have hlast (b : Byte) : (m₁ b).run 1 = _ := Machine.run_of_error (hs₁ b).1 0
  have hsum : [1, 1].sum = [2].sum := rfl
  obtain ⟨⟨effects, error, hl, hr, -⟩, -, hsignals, hmachine⟩ :=
    throughput (c := c) (d := c) rfl .released hsum (by decide) hread
  refine ⟨hread, ?_, hl.trans hr.symm, hsignals, hmachine, ?_, ?_⟩
  · rw [hright, List.map_cons, List.map_singleton, hs₀.1, (hs₁ 5).1]
  · obtain ⟨d, hd⟩ : ∃ d, d = (c.tick .released 1).console := ⟨_, rfl⟩
    have hw : d.runWith .released 1 = _ := (congrArg (Machine.run 1) (hd ▸ hone.2)).trans (hlast 4)
    have htick (c : Console) : (c.performAll (Command.ticksWith .released [1, 1])).console =
        ((c.tick .released 1).console.tick .released 1).console := rfl
    rw [htick c, ← hd, tick_of_error (by rw [hw]), hw]
    exact (hs₁ 4).2
  · have hw : c.runWith .released 2 = _ := Machine.run_of_ok (hm₀ ▸ hs₀.1) 1
    rw [← hm₀, hs₀.2, hlast] at hw
    have htick (c : Console) : (c.performAll (Command.ticksWith .released [2])).console =
        (c.tick .released 2).console := rfl
    rw [htick c, tick_of_error (by rw [hw]), hw]
    exact (hs₁ 5).2

end Console

end Chip8
