import Chip8.Proofs.Faults
import Chip8.Proofs.Stepping

/-!
# The log is the trace of a run

The lines that a step logs are told from the machine before it, its answer and the machine behind
it: first the word that was fetched, then one line at most for what became of it.

* `Machine.outcomeLines`, `Machine.logLines` : what a step has to log.
* `Machine.logLines_of_step` : **a step logs that, and nothing else.**
* `Log.words` : the words that were fetched, as the log has them.
* `Machine.Stored`, `Machine.Stored.performAll` : the stored word is the latest of these.
* `Machine.log_faithful` : **the log of any steps is what each of them has to log, in order.**
-/

namespace Chip8

namespace Log

/-- A line of a level. -/
def Level.line (level : Level) (text : String) : String := level.text ++ " " ++ text

/-! ### The words in a log -/

/-- The word that an entry says was fetched. -/
def Entry.word? : Entry → Option Word
  | .fetched _ w _ => some w
  | _ => none

/-- The words that were fetched, the latest one last. -/
def words (log : Log) : List Word := log.filterMap Entry.word?

theorem words_append (log rest : Log) : words (log ++ rest) = words log ++ words rest :=
  List.filterMap_append ..

end Log

/-- What an instruction logs that leads to `pc`, with `depth` calls under way behind it. -/
def Instruction.entries (pc depth : Nat) : Instruction → Log
  | .call _ => [.called pc depth]
  | .ret => [.returned pc]
  | .unknown w => [.unknownWord w]
  | _ => []

namespace Machine

/-! ### What a step has to log -/

/-- What the next step has to log about the word `w` that it fetches: a call or a return that
succeeds, a word that is no instruction, or a fault, which is passed over or halts. -/
def outcomeLines (m : Machine) (w : Word) : List String :=
  let n := m.step.machine
  match m.step.result with
  | .ok .none =>
    if w.fits "2NNN" then
      [Log.Level.debug.line ("call " ++ Hex.word n.registers.pc ++
        " depth " ++ toString n.registers.stack.depth)]
    else if w = 0x00EE then [Log.Level.debug.line ("return to " ++ Hex.word n.registers.pc)]
    else []
  | .ok .cleared | .ok .drawn => []
  | .ok (.unsupported v) =>
    [Log.Level.warn.line ("An unsupported opcode was used " ++ Hex.word v.toNat)]
  | .ok (.ignored f) =>
    [Log.Level.warn.line ("ignoring opcode " ++ Hex.word w.toNat ++
      " at " ++ Hex.word m.registers.pc ++ ": " ++ (Error.fault f).message)]
  | .error e =>
    [Log.Level.error.line ("halting at " ++ Hex.word (m.registers.pc + 2) ++
      " after opcode " ++ Hex.word w.toNat ++ ": " ++ e.message)]

/-- What the next step has to log: nothing if the machine has halted before; that it halts if there
is no word at the counter; and else the word and what becomes of it. -/
def logLines (m : Machine) : List String :=
  match m.halted, m.memory.fetch m.registers.pc with
  | some _, _ => []
  | none, .error e =>
    [Log.Level.error.line ("halting at " ++ Hex.word m.registers.pc ++
      " after opcode " ++ Hex.word m.opcode.toNat ++ ": " ++ (Error.fault (.memory e)).message)]
  | none, .ok w =>
    Log.Level.debug.line (Hex.word m.registers.pc ++ " " ++ Hex.word w.toNat ++ " " ++
      (Instruction.ofWord w).text) :: m.outcomeLines w

variable {m : Machine} {w : Word}

/-! ### Steps -/

theorem log_of_execute {i : Instruction} {e : Execution} (h : m.execute i = .ok e) (pc : Nat) :
    e.log = i.entries (e.flow.apply pc) e.machine.registers.stack.depth := by
  cases executed_of_execute h <;> rfl

theorem outcomeLines_of_faulted {f : Fault} (hm : m.halted = none)
    (hf : m.memory.fetch m.registers.pc = .ok w)
    (hx : (m.fetched w).execute (.ofWord w) = .error f) :
    ((m.fetched w).settle m.registers.pc f).log.map (·.line) = m.outcomeLines w := by
  cases hp : m.config.policy with
  | halt =>
    simp only [outcomeLines, (step_of_halting hm hf hx hp).1, settle_eq,
      show (m.fetched w).config.policy = .halt from hp]
    rfl
  | ignore =>
    simp only [outcomeLines, (step_of_ignored hm hf hx hp).1, settle_eq,
      show (m.fetched w).config.policy = .ignore from hp]
    rfl

theorem outcomeLines_of_executed {e : Execution} (hm : m.halted = none)
    (hf : m.memory.fetch m.registers.pc = .ok w)
    (hx : (m.fetched w).execute (.ofWord w) = .ok e) :
    e.log.map (·.line) = m.outcomeLines w := by
  have hstep := step_of_executed hm hf hx
  have hcall := Instruction.ofWord_eq_call_iff (w := w)
  have hret := Instruction.ofWord_eq_ret_iff (w := w)
  rw [log_of_execute hx e.machine.registers.pc]
  simp only [outcomeLines, hstep, afterExecution, effect_of_execute hx]
  cases hi : Instruction.ofWord w with
  | call nnn =>
    simp only [Instruction.effect, if_pos (hcall.1 ⟨nnn, hi⟩)]
    rfl
  | ret =>
    have hne : ¬ w.fits "2NNN" = true := by
      rw [← hcall, hi]
      rintro ⟨_, ⟨⟩⟩
    simp only [Instruction.effect, if_neg hne, if_pos (hret.1 hi)]
    rfl
  | clearScreen | draw | unknown => rfl
  | _ =>
    have hne : ¬ w.fits "2NNN" = true := by
      rw [← hcall, hi]
      rintro ⟨_, ⟨⟩⟩
    have hne' : ¬ w = 0x00EE := by
      rw [← hret, hi]
      rintro ⟨⟩
    simp only [Instruction.effect, if_neg hne, if_neg hne']
    rfl

/-- **A step logs what it has to log, and nothing else.** -/
theorem logLines_of_step (m : Machine) : m.step.log.map (·.line) = m.logLines := by
  generalize hr : m.step = reply
  cases hr ▸ m.stepCase with
  | halted hm => simp only [logLines, hm, List.map_nil]
  | unfetched hm hf =>
    simp only [logLines, hm, hf]
    rfl
  | faulted hm hf hx =>
    simp only [logLines, hm, hf, afterFault, List.map_cons, outcomeLines_of_faulted hm hf hx]
    rfl
  | executed hm hf hx =>
    simp only [logLines, hm, hf, afterExecution, List.map_cons, outcomeLines_of_executed hm hf hx]
    rfl

/-- The first of some steps, and the others. -/
theorem log_replicate_succ (m : Machine) (n : Nat) :
    (m.performAll (List.replicate (n + 1) .step)).log =
      m.step.log ++ (m.step.machine.performAll (List.replicate n .step)).log := by
  rw [List.replicate_succ]
  rfl

theorem logLines_of_steps (m : Machine) (n : Nat) :
    (m.performAll (List.replicate n .step)).log.map (·.line) =
      (List.range n).flatMap fun k => (m.after k).logLines := by
  induction n generalizing m with
  | zero => rfl
  | succ n ih =>
    have hsucc (k : Nat) : (m.after (k + 1)).logLines = (m.step.machine.after k).logLines := by
      rw [after_succ]
    rw [log_replicate_succ, List.map_append, logLines_of_step, ih, flatMap_range_succ hsucc]
    rfl

/-! ### The stored word -/

/-- The machine is at the start of a program, or stores the latest of the words in `log`. -/
def Stored (m : Machine) (log : Log) : Prop :=
  m.registers.pc = Memory.origin ∨ log.words.getLast? = some m.opcode

variable {log : Log}

/-- A fetched word is the latest one, whatever else the step logs. -/
theorem stored_of_fetched {n : Machine} {pc : Nat} {i : Instruction} {rest : Log}
    (hopcode : n.opcode = w) (hrest : rest.words = []) :
    n.Stored (log ++ .fetched pc w i :: rest) := by
  right
  have hwords : Log.words (.fetched pc w i :: rest) = w :: rest.words := rfl
  rw [Log.words_append, hwords, hrest, List.getLast?_concat, hopcode]

theorem words_of_execute {i : Instruction} {e : Execution} (h : m.execute i = .ok e) :
    e.log.words = [] := by
  cases executed_of_execute h <;> rfl

theorem Stored.step (h : m.Stored log) : m.step.machine.Stored (log ++ m.step.log) := by
  generalize hr : m.step = reply
  cases hr ▸ m.stepCase with
  | halted =>
    rw [List.append_nil]
    exact h
  | @unfetched e =>
    have hwords : Log.words (log ++ (m.halt (.memory e)).log) = log.words := by
      rw [Log.words_append]
      exact List.append_nil _
    rw [Stored, hwords]
    exact h
  | @faulted w f =>
    simp only [afterFault, settle_eq]
    split <;> exact stored_of_fetched rfl rfl
  | @executed w e hm hf hx =>
    exact stored_of_fetched (kept_of_execute hx).opcode (words_of_execute hx)

theorem Stored.perform (h : m.Stored log) (command : Command) :
    (m.perform command).machine.Stored (log ++ (m.perform command).log) := by
  have hsame : ∀ {n : Machine}, n.registers = m.registers → n.opcode = m.opcode →
      n.Stored (log ++ []) := by
    intro n hregisters hopcode
    rw [List.append_nil, Stored, hregisters, hopcode]
    exact h
  cases command with
  | step => exact h.step
  | setKeypad | tickTimers | setGenerator => exact hsame rfl rfl
  | reset => exact .inl rfl
  | load rom =>
    simp only [Machine.perform, load]
    cases imageOf rom with
    | error e => exact hsame rfl rfl
    | ok image => exact .inl rfl

theorem Stored.performAll (h : m.Stored log) (commands : List Command) :
    (m.performAll commands).machine.Stored (log ++ (m.performAll commands).log) := by
  induction commands generalizing m log with
  | nil =>
    rw [show (m.performAll []).log = [] from rfl, List.append_nil]
    exact h
  | cons command commands ih =>
    have hrest := ih (h.perform command)
    rwa [List.append_assoc] at hrest

/-- **The log is the trace of a run.**  After any requests to a new machine, let it take any number
of steps. The lines that are logged are those that each step has to log, in order: nothing if the
machine has halted before; that it halts, at the counter and after the stored word, if there is no
word to fetch; and else the address, the word and the instruction, and behind it a line for a call
or a return that succeeds, for a word that is no instruction, or for a fault that is passed over at
its address or halts the machine two behind it. The stored word is the one that was fetched before,
whenever there is no word to fetch. -/
theorem log_faithful {rom : Rom} {config : Config} {environment : Nat → Byte}
    (hnew : Machine.new rom config environment = .ok (m, log)) (commands : List Command) (n : Nat) :
    let reply := m.performAll commands
    let c := reply.machine
    (c.performAll (List.replicate n .step)).log.map (·.line) =
        ((List.range n).flatMap fun k => (c.after k).logLines) ∧
      ∀ e, c.halted = none → c.memory.fetch c.registers.pc = .error e →
        reply.log.words.getLast? = some c.opcode := by
  intro reply c
  refine ⟨c.logLines_of_steps n, fun e _ hf => ?_⟩
  have hstart : m.Stored [] := by
    obtain ⟨image, -, rfl⟩ := boot_of_new hnew
    exact .inl rfl
  have hstored : c.Stored reply.log := hstart.performAll commands
  rcases hstored with hpc | hlast
  · -- there is a word at the start of a program
    rw [hpc, Memory.fetch_of_le (by decide)] at hf
    cases hf
  · exact hlast

/-- A machine whose program jumps to the last cell of memory. -/
def leaping : Machine := .boot "" (Memory.initial.blit Memory.origin [0x1F, 0xFF]) {} .zeros

/-- The jump, and the fetch that fails behind it, line by line. -/
theorem log_faithful_leaping :
    let reply := leaping.performAll [.step]
    let c := reply.machine
    Machine.new ⟨"", [0x1F, 0xFF]⟩ {} = .ok (leaping, [.loaded "" 2]) ∧
      c.halted = none ∧ c.memory.fetch c.registers.pc = .error (.outOfBounds 0x1000) ∧
      reply.log.words.getLast? = some c.opcode ∧
      reply.log.map (·.line) = ["DEBUG 0x0200 0x1FFF Jump \x7b nnn: 4095 \x7d"] ∧
      (c.performAll [.step]).log.map (·.line) =
        ["ERROR halting at 0x0FFF after opcode 0x1FFF: " ++
          "Invalid memory access 'Memory address 0x1000 is out of bounds.'."] := by
  have hnew : Machine.new ⟨"", [0x1F, 0xFF]⟩ {} = .ok (leaping, [.loaded "" 2]) := rfl
  have hfetch : leaping.memory.fetch 0x200 = .ok 0x1FFF :=
    (fetch_of_new hnew (k := 0) (by decide)).trans rfl
  have hx : (leaping.fetched 0x1FFF).execute (.ofWord 0x1FFF) =
      .ok { machine := leaping.fetched 0x1FFF, flow := .jump 0xFFF } := rfl
  have hfaithful := log_faithful hnew [.step] 1
  obtain ⟨reply, hreply⟩ : ∃ reply, reply = leaping.performAll [.step] := ⟨_, rfl⟩
  rw [← hreply, List.replicate_one] at hfaithful
  rw [← hreply]
  obtain ⟨hlines, hword⟩ := hfaithful
  have hmachine : reply.machine =
      (leaping.fetched 0x1FFF).withRegisters { Registers.start with pc := 0xFFF } := by
    simp only [hreply, performAll, perform, step_of_executed (m := leaping) rfl hfetch hx]
    rfl
  have hhalted : reply.machine.halted = none := by rw [hmachine]; rfl
  have hlast : reply.machine.memory.fetch reply.machine.registers.pc =
      .error (.outOfBounds 0x1000) := by
    rw [Memory.fetch_eq_error_iff, hmachine]
    exact ⟨by decide, rfl⟩
  have hlog : reply.log = [.fetched 0x200 0x1FFF (.ofWord 0x1FFF)] := by
    simp only [hreply, performAll, perform, step_of_executed (m := leaping) rfl hfetch hx]
    rfl
  refine ⟨hnew, hhalted, hlast, hword _ hhalted hlast, ?_, ?_⟩
  · rw [hlog]
    decide +kernel
  · rw [hlines, List.range_one, List.flatMap_singleton, after]
    simp only [logLines, hhalted, hlast]
    rw [hmachine]
    decide +kernel

end Machine

end Chip8
