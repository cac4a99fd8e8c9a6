import Chip8.Proofs.Noninterference
import Chip8.Proofs.Throughput
import Chip8.Proofs.Trace
import Chip8.Proofs.Writes

/-!
# Random bytes

A machine takes one byte from its source for each `CXNN` that it executes, in the order in which it
executes them, and never puts one back. What else happens, on the machine or on its console, does
not move the source.

* `Generator.byte` : the bytes of a source, in order.
* `Machine.rolls` : the next step executes a `CXNN`.
* `Console.begun`, `Console.sources` : the machines that the steps of a request, and of all
  requests, start from.
* `Machine.Rolled` : some steps in a row have taken their bytes in order. `Rolled.append` joins two
  rows of steps.
* `Machine.rolled_step`, `Machine.rolled_run`, `Console.rolled_performAll` : one step, a run, and
  any requests.
* `Console.randomBytes_in_order` : **the bytes go to the executed `CXNN` one for one, in order.**
-/

namespace Chip8

namespace Generator

/-- The byte that a source hands out behind its first `k` bytes. -/
def byte (g : Generator) (k : Nat) : Byte := (g.after k).next.1

theorem after_add (g : Generator) (a b : Nat) : g.after (a + b) = (g.after a).after b := by
  induction a generalizing g with
  | zero => rw [Nat.zero_add]; rfl
  | succ a ih => rw [Nat.add_right_comm]; exact ih g.next.2

/-- A sequence of bytes counts those that were handed out. -/
theorem after_stream (byte : Nat → Byte) (drawn n : Nat) :
    (stream byte drawn).after n = stream byte (drawn + n) := by
  induction n generalizing drawn with
  | zero => rfl
  | succ n ih => exact (ih (drawn + 1)).trans (by rw [Nat.add_right_comm, Nat.add_assoc])

/-- The bytes of a seeded generator are those of buffers of one byte, filled one after the other. -/
theorem fill_one_of_after {g : Generator} {x : Xoshiro} {k : Nat} (h : g.after k = seeded x) :
    ∃ y, x.fill 1 = ([g.byte k], y) ∧ g.after (k + 1) = seeded y := by
  refine ⟨x.nextByte.2, ?_, ?_⟩
  · rw [x.fill_one, byte, h]; rfl
  · rw [after_add, h]; rfl

end Generator

theorem Instruction.ofWord_of_random {w : Word} (h : w.fits "CXNN" = true) :
    ofWord w = .random w.x w.low := by
  simp [Word.fits, Pattern.admits, Hex.value] at h
  simp [ofWord, ofFields, Fields.family_ofWord, Fields.x_eq, h]
  rfl

namespace Machine

variable {m : Machine} {w : Word}

/-- The next step executes a `CXNN`: the machine runs, and such a word lies at its counter. -/
def rolls (m : Machine) : Bool :=
  m.halted.isNone && decide (m.registers.pc ≤ 0xFFE) && m.word.fits "CXNN"

theorem executes_of_rolls (h : m.rolls = true) : m.Executes m.word ∧ m.word.fits "CXNN" = true := by
  simp only [rolls, Bool.and_eq_true, Option.isNone_iff_eq_none, decide_eq_true_eq] at h
  obtain ⟨⟨hm, hp⟩, hfits⟩ := h
  refine ⟨⟨hm, Memory.fetch_of_le hp, ?_⟩, hfits⟩
  rw [Instruction.ofWord_of_random hfits]
  rfl

theorem rolls_of_fetch (hm : m.halted = none) (hf : m.memory.fetch m.registers.pc = .ok w)
    (hfits : w.fits "CXNN" = true) : m.rolls = true := by
  have hp : m.registers.pc ≤ 0xFFE := by
    refine Nat.le_of_not_lt fun hp => ?_
    rw [Memory.fetch_eq_error_iff.2 ⟨hp, rfl⟩] at hf
    cases hf
  have hw : m.word = w := Except.ok.inj ((Memory.fetch_of_le hp).symm.trans hf)
  simp only [rolls, hm, Option.isNone_none, hp, decide_true, hw, hfits, Bool.and_self]

/-! ### One step -/

/-- What a step leaves behind that executes a `CXNN`: its register holds the next byte of the
source, as far as the low byte of the word masks it, and the source is one byte further. -/
theorem step_of_rolls (h : m.rolls = true) :
    m.step.machine.registers.get m.word.x = m.generator.next.1 &&& m.word.low ∧
      m.step.machine.generator = m.generator.next.2 ∧ m.step.log.words = [m.word] := by
  obtain ⟨hw, hfits⟩ := executes_of_rolls h
  obtain ⟨e, hx, hs⟩ := hw.step_eq
  rw [Instruction.ofWord_of_random hfits] at hx
  cases hx
  rw [hs]
  exact ⟨(Registers.get_set ..).trans (if_pos rfl), rfl, rfl⟩

/-- A step says which word it has fetched, if it has fetched one. -/
theorem words_of_step (m : Machine) :
    m.step.log.words = [] ∨ ∃ w, m.halted = none ∧ m.memory.fetch m.registers.pc = .ok w ∧
      m.step.log.words = [w] := by
  generalize hr : m.step = reply
  cases hr ▸ m.stepCase with
  | halted | unfetched => exact .inl rfl
  | @faulted w f hm hf hx =>
    refine .inr ⟨w, hm, hf, ?_⟩
    simp only [afterFault, settle_eq]
    split <;> rfl
  | @executed w e hm hf hx =>
    exact .inr ⟨w, hm, hf, congrArg (w :: ·) (words_of_execute hx)⟩

/-- The steps from `sources` on, which log `log`, take the bytes for their `CXNN` from the source
`g` in order, and leave the source `g'` behind. -/
structure Rolled (g : Generator) (sources : List Machine) (log : Log) (g' : Generator) : Prop where
  /-- Each `CXNN` finds the source where the ones before it have left it. -/
  generator : ∀ k s, (sources.filter (·.rolls))[k]? = some s → s.generator = g.after k
  /-- The log names the same words. -/
  words : log.words.filter (·.fits "CXNN") = (sources.filter (·.rolls)).map (·.word)
  /-- One byte was taken for each of them. -/
  rest : g' = g.after (sources.filter (·.rolls)).length

/-- Nothing was taken, and no word was fetched. -/
theorem rolled_nil {g : Generator} {log : Log} (h : log.words = []) : Rolled g [] log g where
  generator _ _ hk := by cases hk
  words := by rw [h]; rfl
  rest := rfl

theorem Rolled.append {g g' g'' : Generator} {sources sources' : List Machine} {log log' : Log}
    (h : Rolled g sources log g') (h' : Rolled g' sources' log' g'') :
    Rolled g (sources ++ sources') (log ++ log') g'' where
  generator k s hk := by
    rw [List.filter_append] at hk
    by_cases hlt : k < (sources.filter (·.rolls)).length
    · rw [List.getElem?_append_left hlt] at hk
      exact h.generator k s hk
    · -- the later steps go on with the source that the earlier ones have left
      rw [List.getElem?_append_right (Nat.le_of_not_lt hlt)] at hk
      rw [h'.generator _ s hk, h.rest, ← Generator.after_add,
        Nat.add_sub_cancel' (Nat.le_of_not_lt hlt)]
  words := by
    rw [Log.words_append, List.filter_append, h.words, h'.words, List.filter_append,
      List.map_append]
  rest := by
    rw [h'.rest, h.rest, ← Generator.after_add, List.filter_append, List.length_append]

/-- **A step takes a byte exactly if it executes a `CXNN`.** -/
theorem rolled_step (m : Machine) : Rolled m.generator [m] m.step.log m.step.machine.generator := by
  by_cases hroll : m.rolls = true
  · obtain ⟨-, hgenerator, hwords⟩ := step_of_rolls hroll
    obtain ⟨-, hfits⟩ := executes_of_rolls hroll
    have hfilter : [m].filter (·.rolls) = [m] := List.filter_eq_self.2 (by simpa using hroll)
    constructor
    case generator =>
      intro k s hk
      rw [hfilter, List.getElem?_singleton] at hk
      split at hk <;> cases hk
      subst_vars
      rfl
    case words =>
      rw [hwords, hfilter]
      exact List.filter_eq_self.2 (by simpa using hfits)
    case rest => rw [hfilter, hgenerator]; rfl
  · have hfilter : [m].filter (·.rolls) = [] := List.filter_eq_nil_iff.2 (by simpa using hroll)
    have hkept : m.step.machine.generator = m.generator := by
      refine Classical.byContradiction fun hne => ?_
      obtain ⟨w, hw, hfits⟩ := m.framed_of_step.generator hne
      rw [Word.fitsAny, List.any_cons, List.any_nil, Bool.or_false] at hfits
      exact hroll (rolls_of_fetch hw.running hw.fetched hfits)
    constructor
    case generator => intro k s hk; rw [hfilter] at hk; cases hk
    case words =>
      rw [hfilter]
      rcases m.words_of_step with hnone | ⟨w, hm, hf, hw⟩
      · rw [hnone]; rfl
      · rw [hw]
        exact List.filter_eq_nil_iff.2 fun v hv hfits =>
          hroll (rolls_of_fetch hm hf (List.mem_singleton.1 hv ▸ hfits))
    case rest => rw [hfilter]; exact hkept

/-! ### Runs -/

theorem rolled_run (m : Machine) (n : Nat) :
    Rolled m.generator (m.starts n) (m.run n).log (m.run n).machine.generator := by
  induction n generalizing m with
  | zero => exact rolled_nil rfl
  | succ n ih =>
    cases hs : m.step.result with
    | error e => rw [starts_of_error hs, run_of_error hs]; exact m.rolled_step
    | ok effect =>
      rw [starts_of_ok hs, run_of_ok hs]
      exact m.rolled_step.append (ih _)

theorem rolled_perform (m : Machine) {command : Command}
    (h : ∀ g, command ≠ .setGenerator g) :
    Rolled m.generator (m.sources [command]) (m.perform command).log
      (m.perform command).machine.generator := by
  cases command with
  | step => exact m.rolled_step
  | setKeypad | tickTimers => exact rolled_nil rfl
  | reset => exact rolled_nil rfl
  | setGenerator g => exact absurd rfl (h g)
  | load rom =>
    simp only [sources, perform, load]
    cases imageOf rom with
    | error e => exact rolled_nil rfl
    | ok image => exact rolled_nil rfl

end Machine

/-! ### Consoles -/

namespace Console

open Machine (Rolled)

/-- The machines that the steps of a request start from. -/
def begun (c : Console) : Command → List Machine
  | .tick keys n => (c.machine.setKeypad keys).starts n
  | .frame keys => (c.machine.setKeypad keys).starts c.machine.config.instructionsPerTick
  | .reset => []
  | .machine command => c.machine.sources [command]

/-- The machines that the steps of all requests start from. -/
def sources (c : Console) : List Command → List Machine
  | [] => []
  | command :: commands => c.begun command ++ (c.perform command).console.sources commands

/-- The keys and the timers do not concern the source. -/
theorem rolled_tick (c : Console) (keys : Keypad) (n : Nat) :
    Rolled c.machine.generator ((c.machine.setKeypad keys).starts n) (c.tick keys n).log
      (c.tick keys n).console.machine.generator := by
  have hrun : Rolled c.machine.generator _ (c.runWith keys n).log _ :=
    (c.machine.setKeypad keys).rolled_run n
  have hmachine : (c.tick keys n).console.machine.generator =
      (c.runWith keys n).machine.generator :=
    (congrArg (·.generator) (c.tick_untimed keys n).2 :)
  rw [log_of_tick, hmachine]
  exact hrun

theorem rolled_perform (c : Console) {command : Command}
    (h : ∀ g, command ≠ .machine (.setGenerator g)) :
    Rolled c.machine.generator (c.begun command) (c.perform command).log
      (c.perform command).console.machine.generator := by
  cases command with
  | tick keys n => exact c.rolled_tick keys n
  | frame keys => exact c.rolled_tick keys _
  | reset =>
    simp only [perform, reset, machine_updateAudio]
    exact Machine.rolled_nil rfl
  | machine command => exact c.machine.rolled_perform fun g hg => h g (congrArg _ hg)

theorem rolled_performAll (c : Console) {commands : List Command}
    (h : ∀ g, .machine (.setGenerator g) ∉ commands) :
    Rolled c.machine.generator (c.sources commands) (c.performAll commands).log
      (c.performAll commands).console.machine.generator := by
  induction commands generalizing c with
  | nil => exact Machine.rolled_nil rfl
  | cons command commands ih =>
    have hfirst : ∀ g, command ≠ .machine (.setGenerator g) := fun g hg =>
      h g (hg ▸ List.mem_cons_self)
    exact (c.rolled_perform hfirst).append (ih _ fun g hg => h g (List.mem_cons_of_mem _ hg))

/-- **The random bytes go to the executed `CXNN`, one for one and in order.**  Take any console with
any source of random bytes, and ask it for anything but another source: ticks, frames, steps, resets
and programs to load, with faults or without. The `CXNN` that are executed are those that the log
says were fetched. Number `k` of them, counted from zero, leaves byte `k` of the source in its
register, masked by its low byte. Afterwards the source has handed out one byte for each of them,
and nothing else: a sequence that counts its bytes has counted as many. A reset, of the console or
of its machine, and a program to load leave the source as it is. Byte `k` of a seeded generator is
what it fills a buffer of one byte with, behind `k` such buffers. -/
theorem randomBytes_in_order (c : Console) (commands : List Command)
    (h : ∀ g, .machine (.setGenerator g) ∉ commands) :
    let reply := c.performAll commands
    let g := c.machine.generator
    let rolls := (c.sources commands).filter (·.rolls)
    reply.log.words.filter (·.fits "CXNN") = rolls.map (·.word) ∧
      (∀ k s, rolls[k]? = some s → s.Executes s.word ∧
        s.step.machine.registers.get s.word.x = g.byte k &&& s.word.low) ∧
      reply.console.machine.generator = g.after rolls.length ∧
      (∀ byte drawn, g = .stream byte drawn →
        reply.console.machine.generator = .stream byte (drawn + rolls.length)) ∧
      (∀ restart, restart = .reset ∨ restart = .machine .reset ∨
          (∃ rom, restart = .machine (.load rom)) →
        (reply.console.perform restart).console.machine.generator =
          reply.console.machine.generator) ∧
      ∀ k x, g.after k = .seeded x →
        ∃ y, x.fill 1 = ([g.byte k], y) ∧ g.after (k + 1) = .seeded y := by
  intro reply g rolls
  have hrolled : Rolled g (c.sources commands) reply.log reply.console.machine.generator :=
    c.rolled_performAll h
  refine ⟨hrolled.words, fun k s hk => ?_, hrolled.rest, fun byte drawn hg => ?_, ?_,
    fun k x => Generator.fill_one_of_after⟩
  · have hs : s.rolls = true := (List.mem_filter.1 (List.mem_of_getElem? hk)).2
    obtain ⟨hget, -, -⟩ := Machine.step_of_rolls hs
    rw [hrolled.generator k s hk] at hget
    exact ⟨(Machine.executes_of_rolls hs).1, hget⟩
  · rw [hrolled.rest, hg, Generator.after_stream]
  · -- none of the three takes a step
    rintro restart (rfl | rfl | ⟨rom, rfl⟩)
    · exact (reply.console.rolled_perform (by simp)).rest
    · exact (reply.console.rolled_perform (by simp)).rest
    · exact (reply.console.rolled_perform (by simp)).rest

/-- A machine whose program takes a random byte. -/
def rolling (generator : Generator) : Machine :=
  { Machine.boot "" (Memory.initial.blit Memory.origin [0xC1, 0x0F]) {} .zeros with generator }

/-- Two bytes, one taken in a tick and one in a step, with a reset between them. -/
theorem randomBytes_in_order_rolling :
    let g := Generator.counter 0xA7 1
    let c : Console := { machine := rolling g }
    let commands := [.tick .released 1, .reset, .machine .step]
    (∀ g, .machine (.setGenerator g) ∉ commands) ∧
      (c.sources commands).filter (·.rolls) = [rolling g, rolling (g.after 1)] ∧
      (rolling (g.after 1)).step.machine.registers.get ⟨1, by decide⟩ = 0x08 ∧
      (c.performAll commands).console.machine.generator = g.after 2 := by
  intro g c commands
  have hnone : ∀ g, .machine (.setGenerator g) ∉ commands := by simp [commands]
  have hnew : Machine.new ⟨"", [0xC1, 0x0F]⟩ {} = .ok (rolling .zeros, [.loaded "" 2]) := rfl
  have hfetch (g : Generator) : (rolling g).memory.fetch 0x200 = .ok 0xC10F :=
    (Machine.fetch_of_new hnew (k := 0) (by decide)).trans rfl
  have hrolls (g : Generator) : (rolling g).rolls = true :=
    Machine.rolls_of_fetch rfl (hfetch g) (by decide)
  have hword (g : Generator) : (rolling g).word = 0xC10F :=
    Except.ok.inj ((Memory.fetch_of_le (p := 0x200) (by decide)).symm.trans (hfetch g))
  have hfirst : c.begun (.tick .released 1) = [rolling g] := by
    simp only [begun, Machine.starts]
    cases ((c.machine.setKeypad .released).step).result <;> rfl
  -- the reset goes back to the start of the program, and on with the source
  have hreset : (c.tick .released 1).console.reset.console.machine = rolling (g.after 1) := by
    have hkept := c.unwritten_of_tick .released 1
    have htaken := (c.rolled_tick .released 1).rest
    rw [show (c.machine.setKeypad .released).starts 1 = [rolling g] from hfirst,
      List.filter_cons_of_pos (hrolls g)] at htaken
    simp only [reset, machine_updateAudio, Machine.reset, Machine.restart, withMachine, htaken,
      hkept.name, hkept.image, hkept.config]
    rfl
  have hsources : (c.sources commands).filter (·.rolls) = [rolling g, rolling (g.after 1)] := by
    simp only [commands, sources, hfirst]
    simp only [begun, perform, Machine.sources, hreset, List.nil_append, List.append_nil,
      List.singleton_append]
    exact List.filter_eq_self.2 <|
      List.forall_mem_cons.2 ⟨hrolls g, List.forall_mem_singleton.2 (hrolls _)⟩
  obtain ⟨-, hbytes, hrest, -⟩ := randomBytes_in_order c commands hnone
  rw [hsources] at hbytes hrest
  obtain ⟨-, hget⟩ := hbytes 1 _ rfl
  rw [hword] at hget
  have hbyte : (Generator.counter 0xA7 1).byte 1 &&& Word.low 0xC10F = 0x08 := by decide
  exact ⟨hnone, hsources, hget.trans hbyte, hrest⟩

end Console

end Chip8
