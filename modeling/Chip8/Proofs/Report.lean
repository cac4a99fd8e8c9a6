import Chip8.Proofs.Atomicity
import Chip8.Proofs.Tick
import Chip8.Session

/-!
# A fault is reported once

A machine that halts says so in the log, and a session that meets the error of a machine says so as
well. From then on the machine is frozen until it is started again: the ticks find it halted, and
have nothing to tell.

* `Log.errors`, `Machine.newFault` : the errors in a log, and the fault that a machine has halted
  on.
* `Machine.errors_of_step`, `Machine.errors_of_run` : a machine logs an error exactly when it halts.
* `Session.errors_of_fire`, `Session.fire_of_halted` : what a tick reports.
* `Session.Event.restarts` : the events that start the machine again.
* `Session.fault_reported_once` : **a tick reports a fault exactly when the machine halts in it**,
  and the ticks after a halt do nothing.
-/

namespace Chip8

namespace Log

/-- The entries that say that something is wrong and at its end. -/
def errors (log : Log) : Log := log.filter (·.level == .error)

/-- The entry is a report of a session. -/
def Entry.isStopped : Entry → Bool
  | .stopped _ => true
  | _ => false

theorem errors_append (log rest : Log) : errors (log ++ rest) = errors log ++ errors rest :=
  List.filter_append ..

theorem stopped_mem_errors {log : Log} {e : Error} :
    .stopped e ∈ errors log ↔ .stopped e ∈ log := by
  simp only [errors, List.mem_filter, and_iff_left_iff_imp]
  exact fun _ => rfl

/-- The reports are among the errors. -/
theorem countP_isStopped_errors (log : Log) :
    (errors log).countP (·.isStopped) = log.countP (·.isStopped) := by
  rw [errors, List.countP_filter]
  refine List.countP_congr fun entry _ => ?_
  cases entry <;> simp [Entry.isStopped, Entry.level]

end Log

/-! ### Machines -/

namespace Machine

variable {m n : Machine}

/-- The fault that a machine has halted on which was `m` before and is `n` now. -/
def newFault (m n : Machine) : Option Fault :=
  match m.halted with
  | none => n.halted
  | some _ => none

/-- What is logged of that fault. -/
def haltEntries (m n : Machine) : Log :=
  (newFault m n).toList.map (.halting n.registers.pc n.opcode)

theorem newFault_of_halted {f : Fault} (h : m.halted = some f) (n : Machine) :
    newFault m n = none := by
  simp only [newFault, h]

theorem newFault_of_running (h : m.halted = none) (n : Machine) : newFault m n = n.halted := by
  simp only [newFault, h]

theorem errors_of_execute {i : Instruction} {e : Execution} (h : m.execute i = .ok e) :
    Log.errors e.log = [] := by
  cases executed_of_execute h <;> rfl

/-- **A step logs an error exactly when it halts the machine.** -/
theorem errors_of_step (m : Machine) : m.step.log.errors = haltEntries m m.step.machine := by
  generalize hr : m.step = reply
  cases hr ▸ m.stepCase with
  | halted hm => rw [haltEntries, newFault_of_halted hm]; rfl
  | unfetched hm => rw [haltEntries, newFault_of_running hm]; rfl
  | faulted hm =>
    simp only [haltEntries, newFault_of_running hm, afterFault, settle_eq]
    split
    · rfl
    · rw [show (m.fetched _).halted = none from hm]; rfl
  | @executed w e hm hf hx =>
    have hkept : (m.afterExecution w e).machine.halted = none :=
      (kept_of_execute hx).halted.trans hm
    rw [haltEntries, newFault_of_running hm, hkept]
    exact errors_of_execute hx

/-- A step without an error is one of a machine that runs, and it still runs afterwards. -/
theorem running_of_step {effect : Effect} (h : m.step.result = .ok effect) :
    m.halted = none ∧ m.step.machine.halted = none := by
  generalize hr : m.step = reply at h ⊢
  cases hr ▸ m.stepCase with
  | halted | unfetched => cases h
  | faulted hm =>
    simp only [afterFault, settle_eq] at h ⊢
    split at h
    · cases h
    · exact ⟨hm, hm⟩
  | executed hm hf hx => exact ⟨hm, (kept_of_execute hx).halted.trans hm⟩

/-- A step that fails on a machine that runs halts it on the fault of its error. -/
theorem halted_of_step {e : Error} (hm : m.halted = none) (h : m.step.result = .error e) :
    ∃ f, e = .fault f ∧ m.step.machine.halted = some f := by
  generalize hr : m.step = reply at h ⊢
  cases hr ▸ m.stepCase with
  | halted hm' => rw [hm] at hm'; cases hm'
  | unfetched => cases h; exact ⟨_, rfl, rfl⟩
  | faulted =>
    simp only [afterFault, settle_eq] at h ⊢
    split at h
    · cases h; exact ⟨_, rfl, rfl⟩
    · cases h
  | executed => cases h

/-- **A run logs an error exactly when it halts the machine.** -/
theorem errors_of_run (m : Machine) (n : Nat) :
    (m.run n).log.errors = haltEntries m (m.run n).machine := by
  induction n generalizing m with
  | zero =>
    rw [haltEntries, newFault]
    cases hm : m.halted with
    | none => rw [show (m.run 0).machine.halted = none from hm]; rfl
    | some f => rfl
  | succ n ih =>
    cases hs : m.step.result with
    | error e => rw [run_of_error hs]; exact m.errors_of_step
    | ok effect =>
      obtain ⟨hm, hm'⟩ := running_of_step hs
      have hfirst := m.errors_of_step
      rw [haltEntries, newFault_of_running hm, hm'] at hfirst
      have hrest := ih m.step.machine
      rw [haltEntries, newFault_of_running hm'] at hrest
      rw [run_of_ok hs, Log.errors_append, hfirst, hrest, haltEntries, newFault_of_running hm]
      rfl

/-- A run of a machine that runs fails exactly if the machine has halted, with the fault that it has
halted on. -/
theorem error_of_run (hm : m.halted = none) (n : Nat) :
    (m.run n).error = (m.run n).machine.halted.map .fault := by
  induction n generalizing m with
  | zero => rw [show (m.run 0).machine.halted = none from hm]; rfl
  | succ n ih =>
    cases hs : m.step.result with
    | error e =>
      obtain ⟨f, rfl, hf⟩ := halted_of_step hm hs
      rw [run_of_error hs, hf]
      rfl
    | ok effect => rw [run_of_ok hs]; exact ih (running_of_step hs).2

/-- A machine makes no reports of a session. -/
theorem countP_isStopped_haltEntries (m n : Machine) :
    (haltEntries m n).countP (·.isStopped) = 0 := by
  rw [haltEntries]
  cases newFault m n <;> rfl

theorem countP_isStopped_run (m : Machine) (n : Nat) :
    (m.run n).log.countP (·.isStopped) = 0 := by
  rw [← Log.countP_isStopped_errors, errors_of_run, countP_isStopped_haltEntries]

/-! ### Requests -/

/-- The request starts the machine again: a reset, or another program that is accepted. -/
def Command.restarts : Command → Bool
  | .reset => true
  | .load rom => (imageOf rom).isOk
  | .step | .setKeypad _ | .tickTimers | .setGenerator _ => false

theorem config_of_perform (m : Machine) (command : Command) :
    (m.perform command).machine.config = m.config := by
  cases command with
  | step => exact m.unwritten_of_step.config
  | setKeypad | tickTimers | setGenerator | reset => rfl
  | load rom =>
    simp only [perform, load]
    cases imageOf rom <;> rfl

/-- A halt lasts until the machine is started again. -/
theorem halted_of_perform {f : Fault} (hm : m.halted = some f) {command : Command}
    (hc : command.restarts = false) : (m.perform command).machine.halted = some f := by
  cases command with
  | step => simp only [perform, step_of_halted hm, hm]
  | setKeypad | tickTimers | setGenerator => exact hm
  | reset => cases hc
  | load rom =>
    simp only [perform, load, Command.restarts] at hc ⊢
    cases hi : imageOf rom with
    | error e => exact hm
    | ok image => rw [hi] at hc; cases hc

theorem countP_isStopped_perform (m : Machine) (command : Command) :
    (m.perform command).log.countP (·.isStopped) = 0 := by
  cases command with
  | step =>
    rw [perform, ← Log.countP_isStopped_errors, errors_of_step, countP_isStopped_haltEntries]
  | setKeypad | tickTimers | setGenerator | reset => rfl
  | load rom =>
    simp only [perform, load]
    cases imageOf rom <;> rfl

end Machine

namespace Console

variable {c : Console} {f : Fault}

/-- The request starts the machine again. -/
def Command.restarts : Command → Bool
  | .reset => true
  | .machine command => command.restarts
  | .tick .. | .frame _ => false

theorem config_of_perform (c : Console) (command : Command) :
    (c.perform command).console.machine.config = c.machine.config := by
  cases command with
  | tick keys n => exact (c.unwritten_of_tick keys n).config
  | frame keys => exact (c.unwritten_of_tick keys _).config
  | reset => simp only [perform, reset, machine_updateAudio]; rfl
  | machine command => exact c.machine.config_of_perform command

theorem countP_isStopped_perform (c : Console) (command : Command) :
    (c.perform command).log.countP (·.isStopped) = 0 := by
  cases command with
  | tick keys n => rw [perform, log_of_tick, runWith, Machine.countP_isStopped_run]
  | frame keys => rw [perform, frame, log_of_tick, runWith, Machine.countP_isStopped_run]
  | reset => rfl
  | machine command => exact c.machine.countP_isStopped_perform command

theorem halted_of_tick_of_halted (hm : c.machine.halted = some f) (keys : Keypad) (n : Nat) :
    (c.tick keys n).console.machine.halted = some f := by
  have hrun := (Machine.quiet_run_of_halted (m := c.machine.setKeypad keys) hm n).2
  rw [halted_of_tick, runWith, hrun]
  exact hm

theorem halted_of_perform (hm : c.machine.halted = some f) {command : Command}
    (hc : command.restarts = false) : (c.perform command).console.machine.halted = some f := by
  cases command with
  | tick keys n => exact halted_of_tick_of_halted hm keys n
  | frame keys => exact halted_of_tick_of_halted hm keys _
  | reset => cases hc
  | machine command => exact Machine.halted_of_perform hm hc

end Console

namespace Session

variable {s : Session} {f : Fault}

/-- The event starts the machine again. -/
def Event.restarts : Event → Bool
  | .console command => command.restarts
  | .fire | .write _ => false

/-! ### One tick -/

/-- The fault that the machine has halted on in a tick. -/
def newFault (s : Session) : Option Fault :=
  Machine.newFault s.console.machine s.fire.session.console.machine

theorem fire_of_active (h : s.active = true) :
    s.fire =
      { session := { s with console := (s.console.frame s.keys).console }
        signals := (s.console.frame s.keys).signals
        log := (s.console.frame s.keys).log ++ report (s.console.frame s.keys).result } := by
  rw [fire, if_pos h]

/-- **The ticks after a halt do nothing** but to hand over the keys. -/
theorem fire_of_halted (h : s.active = true)
    (hn : 1 ≤ s.console.machine.config.instructionsPerTick)
    (hm : s.console.machine.halted = some f) :
    s.fire = { session := { s with
      console := s.console.withMachine (s.console.machine.setKeypad s.keys) } } := by
  obtain ⟨n, hn⟩ := Nat.exists_eq_add_one_of_ne_zero (Nat.ne_of_gt hn)
  rw [fire_of_active h, Console.frame, hn, Console.tick_of_halted hm]
  rfl

/-- A tick that finds the machine halted reports nothing. -/
theorem log_of_fire_of_halted (h : s.active = true) (hm : s.console.machine.halted = some f) :
    s.fire.log = [] := by
  rw [fire_of_active h, Console.frame]
  cases s.console.machine.config.instructionsPerTick with
  | zero => rw [Console.tick_of_ok rfl]; rfl
  | succ n => rw [Console.tick_of_halted hm]; rfl

/-- **A tick reports the fault that the machine has halted on in it**, first for the machine and
then for the session, and no other error. -/
theorem errors_of_fire (h : s.active = true) :
    s.fire.log.errors = s.newFault.toList.flatMap fun f =>
      [.halting s.fire.session.console.machine.registers.pc s.fire.session.console.machine.opcode f,
        .stopped (.fault f)] := by
  cases hm : s.console.machine.halted with
  | some f => rw [log_of_fire_of_halted h hm, newFault, Machine.newFault_of_halted hm]; rfl
  | none =>
    obtain ⟨n, hn⟩ : ∃ n, n = s.console.machine.config.instructionsPerTick := ⟨_, rfl⟩
    have hm' : (s.console.machine.setKeypad s.keys).halted = none := hm
    have herror := Machine.error_of_run hm' n
    have herrors := (s.console.machine.setKeypad s.keys).errors_of_run n
    rw [Machine.haltEntries, Machine.newFault_of_running hm'] at herrors
    rw [newFault, Machine.newFault_of_running hm, fire_of_active h, Console.frame, ← hn,
      Log.errors_append, Console.log_of_tick, Console.halted_of_tick]
    -- the machine has halted exactly if the run has failed, which the session reports then
    cases hf : (s.console.runWith s.keys n).machine.halted with
    | none =>
      rw [Console.runWith] at hf
      rw [hf] at herror herrors
      rw [Console.tick_of_ok herror, Console.runWith, herrors]
      rfl
    | some f =>
      rw [Console.runWith] at hf
      rw [hf] at herror herrors
      rw [Console.tick_of_error herror, Console.runWith, herrors]
      rfl

/-! ### Events -/

/-- What every event preserves holds after any number of them. -/
theorem performAll_invariant {P : Session → Prop} {events : List Event}
    (hstep : ∀ event ∈ events, ∀ s, P s → P (s.perform event).session) (h : P s) :
    P (s.performAll events).session := by
  induction events generalizing s with
  | nil => exact h
  | cons event events ih =>
    exact ih (fun e he => hstep e (List.mem_cons_of_mem _ he)) (hstep event List.mem_cons_self s h)

/-- The session ticks, and its ticks have instructions. -/
structure Ticking (s : Session) : Prop where
  active : s.active = true
  count : 1 ≤ s.console.machine.config.instructionsPerTick

theorem console_of_write (s : Session) (w : KeyWrite) :
    ((s.write w).getD s).console = s.console ∧ ((s.write w).getD s).active = s.active := by
  rw [write]
  cases s.keys.write w <;> exact ⟨rfl, rfl⟩

theorem Ticking.perform (h : s.Ticking) (event : Event) : (s.perform event).session.Ticking := by
  cases event with
  | fire =>
    rw [Session.perform, fire_of_active h.active]
    have hconfig : (s.console.frame s.keys).console.machine.config = s.console.machine.config :=
      (s.console.unwritten_of_tick s.keys _).config
    exact ⟨h.active, by simp only [hconfig, h.count]⟩
  | write w =>
    obtain ⟨hconsole, hactive⟩ := s.console_of_write w
    exact ⟨hactive.trans h.active, by simp only [Session.perform, hconsole, h.count]⟩
  | console command =>
    refine ⟨h.active, ?_⟩
    simp only [Session.perform, s.console.config_of_perform command, h.count]

/-- A halt lasts until the machine is started again. -/
theorem halted_of_perform (h : s.active = true) (hm : s.console.machine.halted = some f)
    (event : Event) (he : event.restarts = false) :
    (s.perform event).session.console.machine.halted = some f := by
  cases event with
  | fire =>
    rw [perform, fire_of_active h]
    exact Console.halted_of_tick_of_halted hm s.keys _
  | write w => simp only [perform, (s.console_of_write w).1, hm]
  | console command => exact Console.halted_of_perform hm he

/-! ### The reports of a session -/

/-- Whether the machine of a session can still report a fault. -/
def unreported (s : Session) : Nat := if s.console.machine.halted = none then 1 else 0

theorem unreported_of_halted (hm : s.console.machine.halted = some f) : s.unreported = 0 := by
  rw [unreported, hm]
  rfl

theorem unreported_le (s : Session) : s.unreported ≤ 1 := by
  rw [unreported]
  split <;> decide

/-- An event reports a fault only if there is one to report; afterwards there is none until the
machine is started again. -/
theorem countP_isStopped_perform (h : s.active = true) (event : Event) :
    (s.perform event).log.countP (·.isStopped) + (s.perform event).session.unreported ≤
      s.unreported + if event.restarts then 1 else 0 := by
  cases event with
  | fire =>
    rw [perform, ← Log.countP_isStopped_errors, errors_of_fire h, newFault]
    cases hm : s.console.machine.halted with
    | some f =>
      have hstill : s.fire.session.console.machine.halted = some f :=
        halted_of_perform h hm .fire rfl
      rw [Machine.newFault_of_halted hm, unreported_of_halted hm, unreported_of_halted hstill]
      exact Nat.le_refl 0
    | none =>
      rw [Machine.newFault_of_running hm, unreported, unreported, hm]
      cases s.fire.session.console.machine.halted <;> exact Nat.le_refl 1
  | write w =>
    simp only [perform, unreported, (s.console_of_write w).1]
    exact Nat.le_of_eq (Nat.zero_add _)
  | console command =>
    rw [perform, s.console.countP_isStopped_perform command, Nat.zero_add]
    have hle := (s.perform (.console command)).session.unreported_le
    cases hm : s.console.machine.halted with
    | none =>
      have hone : s.unreported = 1 := by rw [unreported, hm]; rfl
      rw [hone]
      exact Nat.le_trans hle (Nat.le_add_right 1 _)
    | some f =>
      cases hc : (Event.console command).restarts with
      | true => exact Nat.le_trans hle (Nat.le_add_left 1 _)
      | false =>
        have hstill := halted_of_perform h hm (.console command) hc
        exact Nat.le_trans (Nat.le_of_eq (unreported_of_halted hstill)) (Nat.zero_le _)

/-- **Faults are reported once between restarts.** -/
theorem countP_isStopped_performAll (h : s.Ticking) (events : List Event) :
    (s.performAll events).log.countP (·.isStopped) + (s.performAll events).session.unreported ≤
      s.unreported + events.countP (·.restarts) := by
  induction events generalizing s with
  | nil => exact Nat.le_of_eq (Nat.zero_add _)
  | cons event events ih =>
    have hfirst := countP_isStopped_perform h.active event
    have hrest := ih (h.perform event)
    have hlog : (s.performAll (event :: events)).log =
        (s.perform event).log ++ ((s.perform event).session.performAll events).log := rfl
    have hlast : (s.performAll (event :: events)).session =
        ((s.perform event).session.performAll events).session := rfl
    rw [hlog, hlast, List.countP_append, List.countP_cons]
    omega

/-- **A fault is reported once, and then the machine is frozen.**  Let a session go through any
ticks, writes to its keys and requests to its console. The next tick reports an error exactly when
the machine halts in it, and the error is the fault that the machine halts on; the machine itself
has logged that it halts, once and before the session reports it, and nothing else is logged as an
error. After a halt, until a reset or an accepted program starts the machine again, a tick logs
nothing, tells the devices nothing and changes nothing but the keys that the machine sees. So the
faults that are reported are at most one more than the restarts. -/
theorem fault_reported_once (hactive : s.active = true)
    (hcount : 1 ≤ s.console.machine.config.instructionsPerTick) (events : List Event) :
    let t := (s.performAll events).session
    let m := t.console.machine
    let n := t.fire.session.console.machine
    (∀ e, .stopped e ∈ t.fire.log ↔ m.halted = none ∧ ∃ f, n.halted = some f ∧ e = .fault f) ∧
      (∀ f, m.halted = none → n.halted = some f →
        t.fire.log.errors = [.halting n.registers.pc n.opcode f, .stopped (.fault f)]) ∧
      (∀ f, m.halted = some f → ∀ further, (∀ event ∈ further, event.restarts = false) →
        let u := (t.performAll further).session
        u.console.machine.halted = some f ∧
          u.fire = { session := { u with
            console := u.console.withMachine (u.console.machine.setKeypad u.keys) } }) ∧
      (s.performAll events).log.countP (·.isStopped) ≤ 1 + events.countP (·.restarts) := by
  intro t m n
  have hticking : t.Ticking :=
    performAll_invariant (fun event _ s h => Ticking.perform h event) ⟨hactive, hcount⟩
  have herrors := errors_of_fire hticking.active
  refine ⟨fun e => ?_, fun f hm hn => ?_, fun f hm further hfurther => ?_,
    ?_⟩
  · rw [← Log.stopped_mem_errors, herrors, newFault]
    cases hm : m.halted with
    | some f => rw [Machine.newFault_of_halted hm]; simp
    | none =>
      rw [Machine.newFault_of_running hm]
      cases n.halted <;> simp
  · rw [herrors, newFault, Machine.newFault_of_running hm, hn]
    rfl
  · intro u
    obtain ⟨hactive, hhalted⟩ : u.Ticking ∧ u.console.machine.halted = some f := by
      refine performAll_invariant (P := fun s => s.Ticking ∧ s.console.machine.halted = some f)
        (fun event he s h => ?_) ⟨hticking, hm⟩
      exact ⟨h.1.perform event, halted_of_perform h.1.active h.2 event (hfurther event he)⟩
    exact ⟨hhalted, fire_of_halted hactive.active hactive.count hhalted⟩
  · have hreports := countP_isStopped_performAll ⟨hactive, hcount⟩ events
    have hone := s.unreported_le
    omega

/-- A tick whose first step fails leaves the machine as that step does. -/
theorem machine_of_fire_error (h : s.active = true) {n : Nat}
    (hn : s.console.machine.config.instructionsPerTick = n + 1) {e : Error}
    (he : (s.console.machine.setKeypad s.keys).step.result = .error e) :
    s.fire.session.console.machine = (s.console.machine.setKeypad s.keys).step.machine := by
  have hrun := Machine.run_of_error he n
  rw [fire_of_active h, Console.frame, hn,
    Console.tick_of_error (e := e) (by rw [Console.runWith, hrun]), Console.runWith, hrun]
  rfl

/-- A session whose program returns from no call. -/
def failing : Session := { console := { machine := Machine.returning .halt } }

/-- The first tick of that session, and the tick after a key was pressed. -/
theorem fault_reported_once_failing :
    let t := (failing.performAll [.fire, .write (.set 3 true)]).session
    failing.fire.log.errors =
        [.halting 0x202 0x00EE (.stack .underflow), .stopped (.fault (.stack .underflow))] ∧
      t.console.machine.halted = some (.stack .underflow) ∧ t.keys.pressed = [3] ∧
      t.fire = { session := { t with
        console := t.console.withMachine (t.console.machine.setKeypad t.keys) } } := by
  have hfetch : (Machine.returning .halt).memory.fetch 0x200 = .ok 0x00EE :=
    Machine.fetch_returning .halt (by decide)
  obtain ⟨hresult, hmachine⟩ := Machine.step_of_halting
    (m := failing.console.machine.setKeypad failing.keys) rfl hfetch rfl rfl
  have hfired := (machine_of_fire_error (s := failing) rfl (n := 9) rfl hresult).trans hmachine
  have hhalted : failing.fire.session.console.machine.halted = some (.stack .underflow) := by
    rw [hfired]
  have hnil (s : Session) : (s.performAll []).session = s := rfl
  have hone (s : Session) : (s.performAll [.fire]).session = s.fire.session := rfl
  have htwo (s : Session) (e : Event) :
      (s.performAll [.fire, e]).session = (s.fire.session.performAll [e]).session := rfl
  obtain ⟨-, herrors, -, -⟩ := fault_reported_once (s := failing) rfl (by decide) []
  obtain ⟨-, -, hfrozen, -⟩ := fault_reported_once (s := failing) rfl (by decide) [.fire]
  rw [hnil] at herrors
  rw [hone] at hfrozen
  obtain ⟨hstill, hnothing⟩ := hfrozen _ hhalted [.write (.set 3 true)] (by decide)
  have hreported := herrors _ rfl hhalted
  rw [hfired] at hreported
  rw [htwo]
  exact ⟨hreported, hstill, by decide, hnothing⟩

end Session

end Chip8
