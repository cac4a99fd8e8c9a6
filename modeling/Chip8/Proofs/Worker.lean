import Chip8.Proofs.Report
import Chip8.Proofs.Threads

/-!
# What a worker reports

A session takes its keys and ticks at once, where a worker among other threads does so step by step.
To others it comes to the same: what threads do to a console is what a session does to it that ticks
whenever a tick of the worker ends, with the keys that the worker has copied. So a worker reports a
fault when a session does, and ticks behind a halt do nothing.

* `Threads.eraseAll` : what a session has to do instead.
* `Threads.Mirrors`, `Threads.Mirrors.performAll` : **the console goes through what that session
  goes through**, and as much is reported.
* `Threads.errors_of_fired`, `Threads.fired_of_halted` : what a tick of the worker reports.
* `Threads.countP_isStopped_log_le` : faults are reported once between restarts.
-/

namespace Chip8

namespace Session

theorem performAll_append (s : Session) (events later : List Event) :
    (s.performAll (events ++ later)).session =
        ((s.performAll events).session.performAll later).session ∧
      (s.performAll (events ++ later)).log =
        (s.performAll events).log ++ ((s.performAll events).session.performAll later).log := by
  induction events generalizing s with
  | nil => exact ⟨rfl, rfl⟩
  | cons event events ih =>
    obtain ⟨hsession, hlog⟩ := ih (s.perform event).session
    refine ⟨hsession, ?_⟩
    have hcons (rest : List Event) : (s.performAll (event :: rest)).log =
        (s.perform event).log ++ ((s.perform event).session.performAll rest).log := rfl
    rw [List.cons_append, hcons, hcons, hlog, List.append_assoc]
    rfl

/-- The keys are written, and the session ticks with them. -/
theorem performAll_fire {s : Session} (h : s.active = true) (keys : Keypad) :
    s.performAll [.write (.setAll keys), .fire] = fire { console := s.console, keys } := by
  obtain ⟨console, old, active⟩ := s
  cases h
  have hreply : ∀ reply : Reply,
      { reply with signals := [] ++ (reply.signals ++ []), log := [] ++ (reply.log ++ []) } =
        reply := by
    intro reply
    rw [List.append_nil, List.append_nil]
    rfl
  exact hreply (fire { console, keys })

end Session

namespace Threads

variable {l : Lock} {t : Threads l} {s : Session} {notes : List Note}

/-! ### Threads as a session -/

/-- The log of the tick that has ended. -/
def Note.log : Note → Log
  | .fired _ _ log => log
  | .keypad .. | .locked _ => []

/-- What a session has to do instead: a tick counts when it ends, with the keys that the machine has
then. -/
def erase (t : Threads l) : Event → List Session.Event
  | .keypads _ | .visit | .leave => []
  | .console command => if t.visitors = 0 then [] else [.console command]
  | .work =>
    match t.work.2 with
    | some (.fired ..) => [.write (.setAll t.console.machine.keypad), .fire]
    | _ => []

/-- What a session has to do instead of all these events. -/
def eraseAll (t : Threads l) : List Event → List Session.Event
  | [] => []
  | event :: events => t.erase event ++ (t.perform event).1.eraseAll events

/-- The console is that of the session, or a tick has brought it halfway from there. -/
structure Mirrors (t : Threads l) (s : Session) : Prop where
  active : s.active = true
  console : t.phase.ticks = false → s.console = t.console
  halfway : ∀ left summary signals log, t.phase = .ticking left summary signals log →
    ∃ keys, Halfway s.console keys t.console left summary signals log

namespace Mirrors

/-- The worker does not tick. -/
theorem of_not_ticks (hactive : s.active = true) (hticks : t.phase.ticks = false)
    (hconsole : s.console = t.console) : t.Mirrors s := by
  refine ⟨hactive, fun _ => hconsole, fun _ _ _ _ hphase => ?_⟩
  rw [hphase] at hticks
  cases hticks

/-- The worker is in the middle of a tick. -/
theorem of_halfway {keys : Keypad} {left : Nat} {summary : Summary} {signals : List Signal}
    {log : Log} (hactive : s.active = true) (hphase : t.phase = .ticking left summary signals log)
    (h : Halfway s.console keys t.console left summary signals log) : t.Mirrors s := by
  refine ⟨hactive, fun hticks => ?_, fun _ _ _ _ hleft => ?_⟩
  · rw [hphase] at hticks
    cases hticks
  · rw [hphase] at hleft
    cases hleft
    exact ⟨keys, h⟩

/-- What does not concern the console. -/
theorem of_eq {u : Threads l} (h : t.Mirrors s) (hphase : u.phase = t.phase)
    (hconsole : u.console = t.console) : u.Mirrors s where
  active := h.active
  console hticks := by
    rw [hconsole]
    exact h.console (hphase ▸ hticks)
  halfway left summary signals log hleft := by
    rw [hconsole]
    exact h.halfway left summary signals log (hphase ▸ hleft)

/-- One event: what the session does instead leads to a session that goes with the threads as they
are then, and it reports as much as is noted. -/
def Step (t : Threads l) (s : Session) (event : Event) : Prop :=
  let reply := s.performAll (t.erase event)
  (t.perform event).1.Mirrors reply.session ∧
    reply.log.countP (·.isStopped) =
      ((t.perform event).2.toList.flatMap Note.log).countP (·.isStopped)

theorem keypads_event (hl : l.Lawful) (ht : t.Consistent notes) (h : t.Mirrors s)
    (event : SharedKeypads.Event) : Step t s (.keypads event) := by
  unfold Step
  cases hevent : event.enters own with
  | true =>
    simp only [erase, perform, hevent, if_true]
    exact ⟨h, rfl⟩
  | false =>
    rw [Consistent.perform_keypads hevent]
    refine ⟨?_, ?_⟩
    · cases hend : (t.keypads.perform event).2 with
      | none => exact h.of_eq rfl rfl
      | some e =>
        obtain ⟨handle, outcome⟩ := e
        by_cases heq : handle = own
        · subst heq
          obtain ⟨hcopying, ⟨keys, rfl⟩, -⟩ := ht.took_of_event hl hevent hend
          have hconsole := h.console (by rw [hcopying]; rfl)
          exact of_not_ticks h.active rfl hconsole
        · refine h.of_eq ?_ rfl
          cases outcome <;> simp [Phase.receive, heq]
    · cases (t.keypads.perform event).2 <;> rfl

/-- A tick has ended, and the session has ticked instead. -/
theorem of_fired (h : s.active = true) {u : Threads l} {keys : Keypad} {signals : List Signal}
    {log : Log} (hticks : u.phase.ticks = false)
    (hfired : firedBy s.console keys = .fired u.console signals log) :
    let reply := s.performAll [.write (.setAll keys), .fire]
    u.Mirrors reply.session ∧ reply.log.countP (·.isStopped) =
      ([Note.fired u.console signals log].flatMap Note.log).countP (·.isStopped) := by
  intro reply
  have hreply : reply = Session.fire { console := s.console, keys } :=
    Session.performAll_fire h keys
  simp only [firedBy, Note.fired.injEq] at hfired
  obtain ⟨hconsole, -, hlog⟩ := hfired
  rw [hreply]
  refine ⟨of_not_ticks ?_ hticks hconsole, ?_⟩
  · rw [Session.fire_of_active rfl]
  · rw [hlog, List.flatMap_singleton, Note.log]

theorem work (h : t.Mirrors s) : Step t s .work := by
  unfold Step
  cases hphase : t.phase with
  | resting =>
    have hconsole := h.console (by rw [hphase]; rfl)
    simp only [erase, perform, Threads.work, hphase]
    cases t.keypads.enter own .snapshot with
    | none => exact ⟨h, rfl⟩
    | some keypads => exact ⟨of_not_ticks h.active rfl hconsole, rfl⟩
  | copying =>
    simp only [erase, perform, Threads.work, hphase]
    exact ⟨h, rfl⟩
  | ready keys =>
    have hconsole := h.console (by rw [hphase]; rfl)
    simp only [erase, perform, Threads.work, hphase]
    cases l.take t.lock with
    | none => exact ⟨h, rfl⟩
    | some lock =>
      have hstart := halfway_start t.console keys
      rw [← hconsole] at hstart ⊢
      exact ⟨of_halfway h.active rfl hstart, rfl⟩
  | ticking left summary signals log =>
    obtain ⟨keys, hhalfway⟩ := h.halfway left summary signals log hphase
    cases left with
    | zero =>
      simp only [erase, perform, Threads.work, hphase, hhalfway.keypad]
      exact of_fired h.active rfl hhalfway.fired_of_done
    | succ left =>
      cases hs : t.console.machine.step.result with
      | error e =>
        simp only [erase, perform, Threads.work, hphase, hs, hhalfway.keypad]
        exact of_fired h.active rfl (hhalfway.fired_of_error hs)
      | ok effect =>
        simp only [erase, perform, Threads.work, hphase, hs]
        exact ⟨of_halfway h.active rfl (hhalfway.step hs), rfl⟩

theorem perform (hl : l.Lawful) (ht : t.Consistent notes) (h : t.Mirrors s) (event : Event) :
    Step t s event := by
  cases event with
  | keypads event => exact h.keypads_event hl ht event
  | work => exact h.work
  | visit =>
    simp only [Step, erase, Threads.perform]
    cases l.take t.lock <;> exact ⟨h.of_eq rfl rfl, rfl⟩
  | leave =>
    simp only [Step, erase, Threads.perform]
    cases t.visitors <;> exact ⟨h.of_eq rfl rfl, rfl⟩
  | console command =>
    simp only [Step, erase, Threads.perform]
    by_cases hvisitors : t.visitors = 0
    · rw [if_pos hvisitors, if_pos hvisitors]
      exact ⟨h, rfl⟩
    · have hticks := ht.guarded.ticks_eq_false hvisitors
      rw [if_neg hvisitors, if_neg hvisitors, ← h.console hticks]
      refine ⟨of_not_ticks h.active hticks rfl, ?_⟩
      have hlog : (s.performAll [.console command]).log = (s.console.perform command).log ++ [] :=
        rfl
      rw [hlog, List.append_nil, s.console.countP_isStopped_perform command]
      rfl

/-- **The console goes through what the session goes through**, and as much is reported. -/
theorem performAll (hl : l.Lawful) (ht : t.Consistent notes) (h : t.Mirrors s)
    (events : List Event) :
    let reply := s.performAll (t.eraseAll events)
    (t.performAll events).1.Mirrors reply.session ∧
      reply.log.countP (·.isStopped) =
        ((t.performAll events).2.flatMap Note.log).countP (·.isStopped) := by
  induction events generalizing t s notes with
  | nil => exact ⟨h, rfl⟩
  | cons event events ih =>
    obtain ⟨hfirst, hcount⟩ := h.perform hl ht event
    obtain ⟨hrest, hcounts⟩ := ih (ht.perform hl event) hfirst
    obtain ⟨hsession, hlog⟩ :=
      s.performAll_append (t.erase event) ((t.perform event).1.eraseAll events)
    have hnotes : (t.performAll (event :: events)).2 =
        (t.perform event).2.toList ++ ((t.perform event).1.performAll events).2 := rfl
    refine ⟨?_, ?_⟩
    · rw [eraseAll, hsession]
      exact hrest
    · rw [eraseAll, hlog, hnotes, List.flatMap_append, List.countP_append, List.countP_append,
        hcount, hcounts]

end Mirrors

/-! ### The reports of a worker -/

/-- The event starts the machine again. -/
def Event.restarts : Event → Bool
  | .console command => command.restarts
  | .keypads _ | .work | .visit | .leave => false

theorem countP_restarts_eraseAll (t : Threads l) (events : List Event) :
    (t.eraseAll events).countP (·.restarts) ≤ events.countP (·.restarts) := by
  induction events generalizing t with
  | nil => exact Nat.le_refl 0
  | cons event events ih =>
    have hfirst : (t.erase event).countP (·.restarts) ≤ if event.restarts then 1 else 0 := by
      cases event with
      | keypads | visit | leave => exact Nat.le_refl 0
      | work =>
        simp only [erase]
        split <;> exact Nat.le_refl 0
      | console command =>
        simp only [erase]
        split
        · exact Nat.zero_le _
        · exact Nat.le_of_eq (List.countP_singleton ..)
    have hrest := ih (t.perform event).1
    rw [eraseAll, List.countP_append, List.countP_cons]
    omega

/-- **A tick of the worker reports the fault that the machine has halted on in it**, and no other
error. -/
theorem errors_of_fired {found after : Console} {keys : Keypad} {signals : List Signal} {log : Log}
    (h : .fired after signals log = firedBy found keys) :
    log.errors = (Machine.newFault found.machine after.machine).toList.flatMap fun f =>
      [.halting after.machine.registers.pc after.machine.opcode f, .stopped (.fault f)] := by
  cases h
  exact Session.errors_of_fire (s := { console := found, keys }) rfl

/-- **The ticks of the worker behind a halt do nothing** but to hand over the keys. -/
theorem fired_of_halted {found : Console} {f : Fault} (hm : found.machine.halted = some f)
    (hn : 1 ≤ found.machine.config.instructionsPerTick) (keys : Keypad) :
    firedBy found keys = .fired (found.withMachine (found.machine.setKeypad keys)) [] [] := by
  have hfire := Session.fire_of_halted (s := { console := found, keys }) rfl hn hm
  simp only [firedBy, hfire]

/-- **Faults are reported once between restarts**, whatever the threads do: the faults that the
worker reports are at most one more than the restarts. -/
theorem countP_isStopped_log_le (hl : l.Lawful) (console : Console)
    (hcount : 1 ≤ console.machine.config.instructionsPerTick) (events : List Event) :
    ((((start l console).performAll events).2).flatMap Note.log).countP (·.isStopped) ≤
      1 + events.countP (·.restarts) := by
  have hmirrors : (start l console).Mirrors { console } := .of_not_ticks rfl rfl rfl
  obtain ⟨-, hnoted⟩ := hmirrors.performAll hl (.of_start hl console) events
  have hreports := Session.countP_isStopped_performAll (s := { console }) ⟨rfl, hcount⟩
    ((start l console).eraseAll events)
  have hone := Session.unreported_le { console }
  have hrestarts := (start l console).countP_restarts_eraseAll events
  rw [← hnoted]
  omega

end Threads

end Chip8
