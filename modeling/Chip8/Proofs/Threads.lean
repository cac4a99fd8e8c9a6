import Chip8.Proofs.Keys
import Chip8.Proofs.SharedKeypads
import Chip8.Threads

/-!
# A tick among other threads

However the threads take turns, behind locks that keep their promises a tick of the worker does what
it would do alone with the keys of its snapshot, and these are what the writes before the snapshot
have left.

* `Threads.accesses`, `Threads.workerNotes` : what has been done to the keypads, and by the worker.
* `Threads.firedBy` : the end of a tick that nothing comes between.
* `Threads.Halfway` : the steps that are taken and those that are left make up one tick.
* `Threads.Fires` : every tick that has ended is the tick of a snapshot.
* `Threads.Guarded` : at most one thread has the console.
* `Threads.Consistent`, `Threads.Consistent.perform` : what the threads keep up between them.
* `Threads.keys_linearizable` : **snapshots hold the writes before them, and ticks see snapshots.**
-/

namespace Chip8

/-- The same reply, behind what has been told and logged before. -/
def Console.Reply.behind {α : Type} (r : Console.Reply α) (signals : List Signal) (log : Log) :
    Console.Reply α :=
  { r with signals := signals ++ r.signals, log := log ++ r.log }

namespace Threads

/-! ### Notes -/

/-- What a note says was done to the shared keypads. -/
def Note.access? : Note → Option (Nat × KeyOutcome)
  | .keypad handle outcome => some (handle, outcome)
  | .locked _ | .fired .. => none

/-- What has been done to the shared keypads. -/
def accesses (notes : List Note) : List (Nat × KeyOutcome) := notes.filterMap Note.access?

/-- The worker has done it. -/
def Note.byWorker : Note → Bool
  | .keypad handle _ => handle = own
  | .locked _ | .fired .. => true

/-- What the worker has done. -/
def workerNotes (notes : List Note) : List Note := notes.filter (·.byWorker)

theorem workerNotes_append (notes rest : List Note) :
    workerNotes (notes ++ rest) = workerNotes notes ++ workerNotes rest :=
  List.filter_append ..

theorem accesses_append (notes rest : List Note) :
    accesses (notes ++ rest) = accesses notes ++ accesses rest :=
  List.filterMap_append ..

/-- What the worker notes at the end of a tick of `console` with `keys`, when nothing comes
between. -/
def firedBy (console : Console) (keys : Keypad) : Note :=
  let reply := Session.fire { console, keys }
  .fired reply.session.console reply.signals reply.log

/-! ### One tick -/

/-- A tick of `found` with `keys` has come to `console`: what was told and logged before, and the
steps that are left, make up the steps of the whole tick. -/
structure Halfway (found : Console) (keys : Keypad) (console : Console) (left : Nat)
    (summary : Summary) (signals : List Signal) (log : Log) : Prop where
  steps : Console.steps found.machine.config.instructionsPerTick
      (found.withMachine (found.machine.setKeypad keys)) {} =
    (Console.steps left console summary).behind signals log
  /-- The keys have not changed. -/
  keypad : console.machine.keypad = keys

variable {found console : Console} {keys : Keypad} {left : Nat} {summary : Summary}
  {signals : List Signal} {log : Log}

theorem halfway_start (found : Console) (keys : Keypad) :
    Halfway found keys (found.withMachine (found.machine.setKeypad keys))
      found.machine.config.instructionsPerTick {} [] [] :=
  ⟨rfl, rfl⟩

/-- One more step that succeeds. -/
theorem Halfway.step {effect : Effect}
    (h : Halfway found keys console (left + 1) summary signals log)
    (hs : console.machine.step.result = .ok effect) :
    Halfway found keys (console.withMachine console.machine.step.machine) left
      (summary.record effect) (signals ++ effect.signals console.machine.step.machine.screen)
      (log ++ console.machine.step.log) := by
  refine ⟨?_, console.machine.unwritten_of_step.keypad.trans h.keypad⟩
  rw [h.steps]
  simp only [Console.steps, hs, Console.Reply.behind, List.append_assoc]

/-- A step that fails ends the tick. -/
theorem Halfway.fired_of_error {e : Error}
    (h : Halfway found keys console (left + 1) summary signals log)
    (hs : console.machine.step.result = .error e) :
    firedBy found keys =
      .fired (console.withMachine console.machine.step.machine) signals
        (log ++ console.machine.step.log ++
          Session.report (.error e : Except Error Summary)) := by
  have hsteps := h.steps
  simp only [Console.steps, hs, Console.Reply.behind, List.append_nil] at hsteps
  simp only [firedBy, Session.fire, if_true, Console.frame, Console.tick, hsteps]

/-- When no step is left, the timers move. -/
theorem Halfway.fired_of_done (h : Halfway found keys console 0 summary signals log) :
    firedBy found keys =
      .fired console.finishTick.1 (signals ++ console.finishTick.2)
        (log ++ Session.report (.ok summary)) := by
  have hsteps := h.steps
  simp only [Console.steps, Console.Reply.behind, List.append_nil] at hsteps
  simp only [firedBy, Session.fire, if_true, Console.frame, Console.tick, hsteps]

/-! ### Who has the console -/

/-- The worker ticks the console. -/
def Phase.ticks : Phase → Bool
  | .ticking .. => true
  | .resting | .copying | .ready _ => false

/-- At most one thread has taken the lock of the console: one of `visitors`, or the worker if it
`ticks`. -/
inductive Guarded {l : Lock} : (lock : l.State) → (visitors : Nat) → (ticks : Bool) → Prop
  | free {lock} : ¬l.Held lock → Guarded lock 0 false
  | visited {lock} : l.Held lock → Guarded lock 1 false
  | ticking {lock} : l.Held lock → Guarded lock 0 true

namespace Guarded

variable {l : Lock} {lock taken : l.State} {visitors : Nat} {ticks : Bool}

theorem alone (h : Guarded lock visitors ticks) (htake : l.take lock = some taken) :
    visitors = 0 ∧ ticks = false := by
  cases h with
  | free => exact ⟨rfl, rfl⟩
  | visited hheld | ticking hheld => exact absurd hheld (Lock.not_held_of_take htake)

theorem leave (hl : l.Lawful) (h : Guarded lock (visitors + 1) ticks) :
    Guarded (l.release lock) visitors ticks := by
  cases h with
  | visited hheld => exact .free (hl.free_release hheld)

theorem end_tick (hl : l.Lawful) (h : Guarded lock visitors true) :
    Guarded (l.release lock) visitors false := by
  cases h with
  | ticking hheld => exact .free (hl.free_release hheld)

theorem ticks_eq_false (h : Guarded lock visitors ticks) (hvisitors : visitors ≠ 0) :
    ticks = false := by
  cases h with
  | visited => rfl
  | free | ticking => exact absurd rfl hvisitors

end Guarded

/-! ### What the threads keep up -/

/-- How far the worker is, told from what it has done last. -/
def Working (console : Console) (done : List Note) : Phase → Prop
  | .resting | .copying => True
  | .ready keys => ∃ earlier, done = earlier ++ [.keypad own (.took keys)]
  | .ticking left summary signals log => ∃ earlier keys found,
      done = earlier ++ [.keypad own (.took keys), .locked found] ∧
        Halfway found keys console left summary signals log

/-- While the worker does not tick, the console does not matter for how far it is. -/
theorem Working.of_not_ticks {done : List Note} {phase : Phase} (h : Working console done phase)
    (hticks : phase.ticks = false) (other : Console) : Working other done phase := by
  cases phase with
  | ticking => cases hticks
  | resting | copying | ready => exact h

/-- Every tick that has ended is a tick of the console that the worker found, with the keys of the
snapshot that it took before. -/
def Fires (done : List Note) : Prop :=
  ∀ before console signals log, before ++ [.fired console signals log] <+: done →
    ∃ earlier keys found, before = earlier ++ [.keypad own (.took keys), .locked found] ∧
      .fired console signals log = firedBy found keys

variable {l : Lock}

/-- What has been done, and how it shows in the threads. -/
structure Consistent (t : Threads l) (notes : List Note) : Prop where
  keypads : t.keypads.Consistent (accesses notes)
  /-- The worker has an access to a keypad under way only while it copies. -/
  copying : ∀ i access, (own, access) ∈ (t.keypads.pads i).accesses →
    t.phase = .copying ∧ access.copies = true
  working : Working t.console (workerNotes notes) t.phase
  fires : Fires (workerNotes notes)
  guarded : Guarded t.lock t.visitors t.phase.ticks

variable {t : Threads l} {notes : List Note}

theorem fires_concat {done : List Note} {note : Note} (h : Fires done)
    (hnote : ∀ console signals log, note = .fired console signals log →
      ∃ earlier keys found, done = earlier ++ [.keypad own (.took keys), .locked found] ∧
        note = firedBy found keys) : Fires (done ++ [note]) := by
  intro before console signals log hbefore
  rcases List.prefix_concat_iff.1 hbefore with heq | hbefore
  · obtain ⟨rfl, hlast⟩ := List.append_inj' heq rfl
    cases hlast
    exact hnote _ _ _ rfl
  · exact h before console signals log hbefore

namespace Consistent

/-- Nothing is noted, and nothing has happened to the keypads. -/
theorem of_silent {u : Threads l} (h : t.Consistent notes) (hkeypads : u.keypads = t.keypads)
    (hphase : t.phase = .copying → u.phase = .copying)
    (hworking : Working u.console (workerNotes notes) u.phase)
    (hguarded : Guarded u.lock u.visitors u.phase.ticks) :
    u.Consistent (notes ++ (none : Option Note).toList) := by
  rw [Option.toList_none, List.append_nil]
  refine ⟨hkeypads ▸ h.keypads, fun i access hmem => ?_, hworking, h.fires, hguarded⟩
  rw [hkeypads] at hmem
  obtain ⟨hcopying, hcopies⟩ := h.copying i access hmem
  exact ⟨hphase hcopying, hcopies⟩

/-- The worker notes something about the console. -/
theorem of_noted {u : Threads l} {note : Note} (h : t.Consistent notes)
    (hkeypads : u.keypads = t.keypads) (hphase : t.phase ≠ .copying)
    (haccess : note.access? = none) (hworker : note.byWorker = true)
    (hworking : Working u.console (workerNotes notes ++ [note]) u.phase)
    (hfires : Fires (workerNotes notes ++ [note]))
    (hguarded : Guarded u.lock u.visitors u.phase.ticks) : u.Consistent (notes ++ [note]) := by
  have haccesses : accesses (notes ++ [note]) = accesses notes := by
    simp [accesses, haccess]
  have hnotes : workerNotes (notes ++ [note]) = workerNotes notes ++ [note] := by
    simp [workerNotes, hworker]
  refine ⟨?_, fun i access hmem => ?_, hnotes ▸ hworking, hnotes ▸ hfires, hguarded⟩
  · rw [haccesses, hkeypads]
    exact h.keypads
  · rw [hkeypads] at hmem
    exact absurd (h.copying i access hmem).1 hphase

/-- Only one keypad is accessed through a handle. -/
theorem pad_unique (h : t.Consistent notes) {i j handle : Nat} {a b : KeyAccess}
    (hi : (handle, a) ∈ (t.keypads.pads i).accesses)
    (hj : (handle, b) ∈ (t.keypads.pads j).accesses) : i = j := by
  have hsame := (h.keypads.handles i handle a hi).symm.trans (h.keypads.handles j handle b hj)
  exact Option.some.inj hsame

theorem perform_keypads {event : SharedKeypads.Event} (hevent : event.enters own = false) :
    t.perform (.keypads event) =
      ({ t with
          keypads := (t.keypads.perform event).1
          phase := t.phase.receive (t.keypads.perform event).2 },
        (t.keypads.perform event).2.map fun e => .keypad e.1 e.2) := by
  simp only [Threads.perform, hevent, Bool.false_eq_true, if_false]

section Keypads

variable {event : SharedKeypads.Event} (hl : l.Lawful) (h : t.Consistent notes)
  (hevent : event.enters own = false)

include h hevent in
/-- No other thread begins an access for the worker. -/
theorem copying_of_event {i : Nat} {access : KeyAccess}
    (hmem : (own, access) ∈ ((t.keypads.perform event).1.pads i).accesses) :
    t.phase = .copying ∧ access.copies = true := by
  obtain ⟨a, ha, hsame⟩ := SharedKeypads.mem_of_perform hevent hmem
  rw [hsame]
  exact h.copying i a ha

include hl h hevent

/-- What the worker has done to the keypad is a copy, and no access is under way behind it. -/
theorem took_of_event {outcome : KeyOutcome}
    (hend : (t.keypads.perform event).2 = some (own, outcome)) :
    t.phase = .copying ∧ (∃ keys, outcome = .took keys) ∧
      ∀ i access, (own, access) ∉ ((t.keypads.perform event).1.pads i).accesses := by
  obtain ⟨i, a, hnone, -, hmem, htook⟩ := SharedKeypads.mem_of_outcome hl h.keypads hend
  obtain ⟨hcopying, hcopies⟩ := h.copying i a hmem
  refine ⟨hcopying, htook hcopies, fun j access hj => ?_⟩
  obtain ⟨b, hb, -⟩ := SharedKeypads.mem_of_perform hevent hj
  rw [← h.pad_unique hmem hb, hnone] at hj
  cases hj

/-- Something is done to a keypad. -/
theorem of_ended {e : Nat × KeyOutcome} (hend : (t.keypads.perform event).2 = some e) :
    Consistent { t with
        keypads := (t.keypads.perform event).1
        phase := t.phase.receive (some e) } (notes ++ [.keypad e.1 e.2]) := by
  have hkeypads := h.keypads.perform hl event
  obtain ⟨handle, outcome⟩ := e
  have haccesses : (t.keypads.perform event).1.Consistent
      (accesses (notes ++ [.keypad handle outcome])) := by
    rw [hend] at hkeypads
    rw [accesses_append]
    exact hkeypads
  by_cases heq : handle = own
  · -- the worker has its copy
    subst heq
    obtain ⟨hcopying, ⟨keys, rfl⟩, hnone⟩ := h.took_of_event hl hevent hend
    have hnotes : workerNotes (notes ++ [Note.keypad own (.took keys)]) =
        workerNotes notes ++ [Note.keypad own (.took keys)] :=
      workerNotes_append ..
    have hguarded := h.guarded
    rw [hcopying] at hguarded
    refine ⟨haccesses, fun j access hj => absurd hj (hnone j access), ?_, ?_, hguarded⟩
    · rw [hnotes]
      exact ⟨_, rfl⟩
    · rw [hnotes]
      exact fires_concat h.fires nofun
  · have hnotes : workerNotes (notes ++ [Note.keypad handle outcome]) = workerNotes notes := by
      simp [workerNotes, Note.byWorker, heq]
    have hphase : t.phase.receive (some (handle, outcome)) = t.phase := by
      cases outcome <;> simp [Phase.receive, heq]
    rw [hphase]
    exact ⟨haccesses, fun j access hj => h.copying_of_event hevent hj, hnotes ▸ h.working,
      hnotes ▸ h.fires, h.guarded⟩

end Keypads

theorem keypads_event (hl : l.Lawful) (h : t.Consistent notes) (event : SharedKeypads.Event) :
    (t.perform (.keypads event)).1.Consistent
      (notes ++ (t.perform (.keypads event)).2.toList) := by
  cases hevent : event.enters own with
  | true =>
    simp only [Threads.perform, hevent, if_true]
    exact h.of_silent rfl id h.working h.guarded
  | false =>
    rw [perform_keypads hevent]
    cases hend : (t.keypads.perform event).2 with
    | none =>
      have hkeypads := h.keypads.perform hl event
      rw [hend, Option.toList_none, List.append_nil] at hkeypads
      rw [Option.map_none, Option.toList_none, List.append_nil]
      exact ⟨hkeypads, fun i access hmem => h.copying_of_event hevent hmem, h.working, h.fires,
        h.guarded⟩
    | some e => exact h.of_ended hl hevent hend

theorem work (hl : l.Lawful) (h : t.Consistent notes) :
    t.work.1.Consistent (notes ++ t.work.2.toList) := by
  have hworking := h.working
  have hguarded := h.guarded
  unfold Threads.work
  cases hphase : t.phase with
  | resting =>
    cases henter : t.keypads.enter own .snapshot with
    | none => exact h.of_silent rfl id h.working h.guarded
    | some keypads =>
      have hfree : t.phase ≠ .copying := by rw [hphase]; nofun
      rw [hphase] at hguarded
      rw [Option.toList_none, List.append_nil]
      refine ⟨h.keypads.enter hl henter, fun i access hmem => ⟨rfl, ?_⟩, trivial, h.fires,
        hguarded⟩
      rcases SharedKeypads.mem_of_enter henter hmem with hmem | heq
      · exact absurd (h.copying i access hmem).1 hfree
      · cases heq
        rfl
  | copying => exact h.of_silent rfl id h.working h.guarded
  | ready keys =>
    cases htake : l.take t.lock with
    | none => exact h.of_silent rfl id h.working h.guarded
    | some taken =>
      rw [hphase] at hworking
      obtain ⟨earlier, hearlier⟩ := hworking
      obtain ⟨hvisitors, -⟩ := hguarded.alone htake
      refine h.of_noted rfl (by rw [hphase]; nofun) rfl rfl ?_ (fires_concat h.fires nofun) ?_
      · refine ⟨earlier, keys, t.console, ?_, halfway_start t.console keys⟩
        rw [hearlier, List.append_assoc]
        rfl
      · simp only [hvisitors]
        exact .ticking (hl.held_of_take htake)
  | ticking left summary signals log =>
    rw [hphase] at hworking hguarded
    obtain ⟨earlier, keys, found, hearlier, hhalfway⟩ := hworking
    have hbusy : t.phase ≠ .copying := by rw [hphase]; nofun
    cases left with
    | zero =>
      refine h.of_noted rfl hbusy rfl rfl trivial (fires_concat h.fires fun _ _ _ _ => ?_)
        (hguarded.end_tick hl)
      exact ⟨earlier, keys, found, hearlier, hhalfway.fired_of_done.symm⟩
    | succ left =>
      cases hs : t.console.machine.step.result with
      | error e =>
        simp only [hs]
        refine h.of_noted rfl hbusy rfl rfl trivial (fires_concat h.fires fun _ _ _ _ => ?_)
          (hguarded.end_tick hl)
        exact ⟨earlier, keys, found, hearlier, (hhalfway.fired_of_error hs).symm⟩
      | ok effect =>
        simp only [hs]
        exact h.of_silent rfl (fun hc => absurd hc hbusy)
          ⟨earlier, keys, found, hearlier, hhalfway.step hs⟩ hguarded

theorem perform (hl : l.Lawful) (h : t.Consistent notes) (event : Event) :
    (t.perform event).1.Consistent (notes ++ (t.perform event).2.toList) := by
  have hguarded := h.guarded
  cases event with
  | keypads event => exact h.keypads_event hl event
  | work => exact h.work hl
  | visit =>
    simp only [Threads.perform]
    cases htake : l.take t.lock with
    | none => exact h.of_silent rfl id h.working h.guarded
    | some taken =>
      obtain ⟨hvisitors, hticks⟩ := hguarded.alone htake
      refine h.of_silent rfl id h.working ?_
      simp only [hvisitors, hticks]
      exact .visited (hl.held_of_take htake)
  | console command =>
    simp only [Threads.perform]
    split
    · exact h.of_silent rfl id h.working h.guarded
    · rename_i hvisitors
      -- the console changes only while the worker does not tick
      have hticks := hguarded.ticks_eq_false hvisitors
      exact h.of_silent rfl id (h.working.of_not_ticks hticks _) h.guarded
  | leave =>
    simp only [Threads.perform]
    cases hvisitors : t.visitors with
    | zero => exact h.of_silent rfl id h.working h.guarded
    | succ visitors =>
      rw [hvisitors] at hguarded
      exact h.of_silent rfl id h.working (hguarded.leave hl)

theorem performAll (hl : l.Lawful) (h : t.Consistent notes) (events : List Event) :
    (t.performAll events).1.Consistent (notes ++ (t.performAll events).2) := by
  induction events generalizing t notes with
  | nil =>
    rw [show (t.performAll []).2 = [] from rfl, List.append_nil]
    exact h
  | cons event events ih =>
    have hrest := ih (h.perform hl event)
    rwa [List.append_assoc] at hrest

theorem of_start (hl : l.Lawful) (console : Console) : (start l console).Consistent [] where
  keypads :=
    { handles := nofun
      bounded := nofun
      pads := fun _ => .free hl.free_new rfl
      snapshots := fun before handle keys hbefore => by
        have hnil := List.prefix_nil.1 hbefore
        simp at hnil }
  copying := nofun
  working := trivial
  fires before console signals log hbefore := by
    have hnil := List.prefix_nil.1 hbefore
    simp at hnil
  guarded := .free hl.free_new

end Consistent

/-! ### All that can happen -/

theorem performAll_append (t : Threads l) (events later : List Event) :
    t.performAll (events ++ later) =
      (((t.performAll events).1.performAll later).1,
        (t.performAll events).2 ++ ((t.performAll events).1.performAll later).2) := by
  induction events generalizing t with
  | nil => rfl
  | cons event events ih =>
    have hcons (rest : List Event) : t.performAll (event :: rest) =
        (((t.perform event).1.performAll rest).1,
          (t.perform event).2.toList ++ ((t.perform event).1.performAll rest).2) := rfl
    rw [List.cons_append, hcons, hcons, ih, List.append_assoc]

theorem handles_perform (t : Threads l) (event : Event) :
    t.keypads.handles <+: (t.perform event).1.keypads.handles := by
  cases event with
  | keypads event =>
    simp only [perform]
    split
    · exact List.prefix_rfl
    · exact t.keypads.handles_perform event
  | visit | console command | leave =>
    simp only [perform]
    split <;> exact List.prefix_rfl
  | work =>
    simp only [perform, work]
    cases t.phase with
    | resting =>
      have hgrow := t.keypads.handles_perform (.enter own .snapshot)
      simp only [SharedKeypads.perform] at hgrow
      cases henter : t.keypads.enter own .snapshot with
      | none => exact List.prefix_rfl
      | some keypads =>
        rw [henter] at hgrow
        exact hgrow
    | copying => exact List.prefix_rfl
    | ready => cases htake : l.take t.lock <;> exact List.prefix_rfl
    | ticking left =>
      cases left with
      | zero => exact List.prefix_rfl
      | succ left => cases hs : t.console.machine.step.result <;> exact List.prefix_rfl

/-- A handle keeps its keypad. -/
theorem handles_performAll (t : Threads l) (events : List Event) :
    t.keypads.handles <+: (t.performAll events).1.keypads.handles := by
  induction events generalizing t with
  | nil => exact List.prefix_rfl
  | cons event events ih => exact (t.handles_perform event).trans (ih _)

/-- An access to a keypad that comes to its end leaves its lock free. -/
theorem free_of_noted (hl : l.Lawful) (h : t.Consistent notes) {event : Event} {handle : Nat}
    {outcome : KeyOutcome} (hnote : (t.perform event).2 = some (.keypad handle outcome)) :
    ∃ i, t.keypads.handles[handle]? = some i ∧
      ¬l.Held ((t.perform event).1.keypads.pads i).lock := by
  cases event with
  | keypads event =>
    cases hevent : event.enters own with
    | true =>
      simp only [perform, hevent, if_true] at hnote
      cases hnote
    | false =>
      rw [Consistent.perform_keypads hevent] at hnote ⊢
      obtain ⟨e, hend, heq⟩ := Option.map_eq_some_iff.1 hnote
      cases heq
      obtain ⟨i, a, -, hfree, hmem, -⟩ := SharedKeypads.mem_of_outcome hl h.keypads hend
      exact ⟨i, h.keypads.handles i _ a hmem, hfree⟩
  | visit | console command | leave =>
    simp only [perform] at hnote
    split at hnote <;> cases hnote
  | work =>
    -- the worker notes what it does to the console, never an access to a keypad
    simp only [perform, work] at hnote
    split at hnote
    · split at hnote <;> cases hnote
    · cases hnote
    · split at hnote <;> cases hnote
    · cases hnote
    · split at hnote <;> cases hnote

/-- A write that names no key panics, and changes no key. -/
theorem performAll_refused (hl : l.Lawful) (h : t.Consistent notes) {handle i : Nat} {w : KeyWrite}
    (hown : handle ≠ own) (hi : t.keypads.handles[handle]? = some i)
    (hfree : ¬l.Held (t.keypads.pads i).lock) (hw : w.cells = none) :
    ∃ lock, ¬l.Held lock ∧
      t.performAll [.keypads (.enter handle (.write w)), .keypads (.proceed i 0)] =
        ({ t with keypads := t.keypads.put i { t.keypads.pads i with lock } },
          [.keypad handle (.panicked w)]) := by
  have hnone := (h.keypads.pads i).accesses_eq_nil hfree
  obtain ⟨s, lock, henter, hlock, hproceed⟩ :=
    SharedKeypads.perform_refused hl hi hfree hnone hw
  have hevent : SharedKeypads.Event.enters own (.enter handle (.write w)) = false :=
    decide_eq_false hown
  have hfirst : t.perform (.keypads (.enter handle (.write w))) =
      ({ t with keypads := s }, none) := by
    rw [Consistent.perform_keypads hevent, henter]
    rfl
  have hsecond : { t with keypads := s }.perform (.keypads (.proceed i 0)) =
      ({ t with keypads := t.keypads.put i { t.keypads.pads i with lock } },
        some (.keypad handle (.panicked w))) := by
    rw [Consistent.perform_keypads rfl]
    simp only [hproceed]
    rfl
  refine ⟨lock, hlock, ?_⟩
  simp only [performAll, hfirst, hsecond]
  rfl

/-- **Snapshots hold the writes before them, and ticks see snapshots.**  Let threads do anything to
shared keypads, through any clones of their handles, while a worker ticks a console, and let the
locks keep their promises.

* Whenever a snapshot is taken, it holds exactly what the writes to the same keypad that came before
  it have left, each of them as a whole and in order; for each key, the last of them that says
  something about it.
* Whatever happens later, what has been taken stays as it is, and a handle keeps its keypad.
* Whenever an access comes to its end, by a panic too, the lock of its keypad is free again.
* A write of a key above 15 panics: it takes the lock and lets go of it, and all else is as it was.
* A tick does exactly what a tick with the keys of the worker's latest snapshot does on the console
  as the worker finds it.
* In the middle of a tick, the next instruction answers its question about keys from this snapshot,
  because no instruction and no decrement of the timers changes the keys of a machine. -/
theorem keys_linearizable (hl : l.Lawful) (console : Console) (events : List Event) :
    let run := (start l console).performAll events
    let t := run.1
    let notes := run.2
    let handles := t.keypads.handles
    (∀ before handle keys, before ++ [.keypad handle (.took keys)] <+: notes →
      ∃ i, handles[handle]? = some i ∧
        let ws := SharedKeypads.writesTo handles i (accesses before)
        keys = Keypad.writeAll ws ∧
          ∀ k, keys.get k = (ws.filterMap (·.puts k)).getLast?.getD false) ∧
    (∀ later, let more := (start l console).performAll (events ++ later)
      notes <+: more.2 ∧ handles <+: more.1.keypads.handles) ∧
    (∀ event handle outcome, (t.perform event).2 = some (.keypad handle outcome) →
      ∃ i, handles[handle]? = some i ∧ ¬l.Held ((t.perform event).1.keypads.pads i).lock) ∧
    (∀ handle i key pressed, handle ≠ own → handles[handle]? = some i →
      ¬l.Held (t.keypads.pads i).lock → 15 < key →
      ∃ lock, ¬l.Held lock ∧
        t.performAll
            [.keypads (.enter handle (.write (.set key pressed))), .keypads (.proceed i 0)] =
          ({ t with keypads := t.keypads.put i { t.keypads.pads i with lock } },
            [.keypad handle (.panicked (.set key pressed))])) ∧
    (∀ before after signals log, before ++ [.fired after signals log] <+: workerNotes notes →
      ∃ earlier keys found, before = earlier ++ [.keypad own (.took keys), .locked found] ∧
        .fired after signals log = firedBy found keys) ∧
    (∀ left summary signals log, t.phase = .ticking left summary signals log →
      ∃ earlier keys found,
        workerNotes notes = earlier ++ [.keypad own (.took keys), .locked found] ∧
          t.console.machine.AnswersFrom keys) ∧
    ∀ m : Machine, m.step.machine.keypad = m.keypad ∧ m.tickTimers.keypad = m.keypad := by
  intro run t notes handles
  have ht : t.Consistent notes := (Consistent.of_start hl console).performAll hl events
  refine ⟨fun before handle keys hbefore => ?_, fun later => ?_,
    fun event handle outcome hnote => free_of_noted hl ht hnote,
    fun handle i key pressed hown hi hfree hkey => ?_, ht.fires,
    fun left summary signals log hphase => ?_, fun m => ⟨m.unwritten_of_step.keypad, rfl⟩⟩
  · have haccesses : accesses before ++ [(handle, .took keys)] <+: accesses notes := by
      have hprefix := hbefore.filterMap Note.access?
      rwa [List.filterMap_append] at hprefix
    obtain ⟨i, hi, hkeys⟩ := ht.keypads.snapshots _ _ _ haccesses
    refine ⟨i, hi, hkeys, fun k => ?_⟩
    rw [hkeys, Keypad.get_writeAll]
  · rw [performAll_append]
    exact ⟨List.prefix_append .., t.handles_performAll later⟩
  · have hcells : KeyWrite.cells (.set key pressed) = none := by
      rw [KeyWrite.cells, Key.ofNat?, dif_neg (Nat.not_lt.2 hkey)]
      rfl
    exact performAll_refused hl ht hown hi hfree hcells
  · have hworking := ht.working
    rw [hphase] at hworking
    obtain ⟨earlier, keys, found, hearlier, hhalfway⟩ := hworking
    refine ⟨earlier, keys, found, hearlier, ?_⟩
    rw [← hhalfway.keypad]
    exact t.console.machine.answersFrom_keypad

/-- A console whose ticks have one instruction, which skips if key 0 is pressed. -/
def skipping : Console where
  machine :=
    .boot "" (Memory.initial.blit Memory.origin [0xE0, 0x9E]) { instructionsPerTick := 1 } .zeros

/-- Another thread presses key 0, the worker copies the keys and locks the console, and the other
thread lets go of the key again. -/
def turns : List Event :=
  .keypads (.enter 1 (.write (.set 0 true))) :: .work ::
    .keypads (.proceed 0 0) :: .keypads (.proceed 0 0) :: .work ::
      (List.replicate 17 (.keypads (.proceed 0 0)) ++
        [.work, .visit, .keypads (.enter 1 (.write (.set 0 false))), .keypads (.proceed 0 0),
          .keypads (.proceed 0 0)])

/-- These turns with locks of one bit. The worker has to wait for the keypad while the key is
pressed, and a visitor has to wait for the console while the worker ticks it. -/
theorem keys_linearizable_turns : Lock.flag.Lawful ∧ ∃ keys t,
    (start .flag skipping).performAll turns = (t, [.keypad 1 (.wrote (.set 0 true)),
      .keypad own (.took keys), .locked skipping, .keypad 1 (.wrote (.set 0 false))]) ∧
    keys.get 0 = true ∧ t.visitors = 0 ∧ t.console.machine.Executes 0xE09E ∧
    t.console.machine.step.machine.registers.pc = 0x204 ∧
    (∃ lock, ¬Lock.flag.Held lock ∧
      t.performAll [.keypads (.enter 1 (.write (.set 16 true))), .keypads (.proceed 0 0)] =
        ({ t with keypads := t.keypads.put 0 { t.keypads.pads 0 with lock } },
          [.keypad 1 (.panicked (.set 16 true))])) ∧
    ∃ after signals log,
      workerNotes ((start .flag skipping).performAll (turns ++ [.work, .work])).2 =
        [.keypad own (.took keys), .locked skipping, .fired after signals log] ∧
      .fired after signals log = firedBy skipping keys := by
  obtain ⟨keys, t, hrun, hphase, hconsole, hvisitors, hhandles, hlock⟩ : ∃ keys t,
      (start .flag skipping).performAll turns = (t, [.keypad 1 (.wrote (.set 0 true)),
        .keypad own (.took keys), .locked skipping, .keypad 1 (.wrote (.set 0 false))]) ∧
      t.phase = .ticking 1 {} [] [] ∧
      t.console = skipping.withMachine (skipping.machine.setKeypad keys) ∧ t.visitors = 0 ∧
      t.keypads.handles = [0, 0] ∧ (t.keypads.pads 0).lock = Lock.flag.new :=
    ⟨_, _, rfl, rfl, rfl, rfl, rfl, rfl⟩
  have hlawful := Lock.lawful_flag
  have hfree : ¬Lock.flag.Held (t.keypads.pads 0).lock := by
    rw [hlock]
    exact hlawful.free_new
  have h := keys_linearizable hlawful skipping turns
  simp only [hrun] at h
  obtain ⟨hsnapshot, -, -, hrefused, -, hticking, -⟩ := h
  -- the snapshot comes after the write that presses the key, and before the one that releases it
  obtain ⟨i, hi, -, hlast⟩ := hsnapshot [.keypad 1 (.wrote (.set 0 true))] own keys ⟨_, rfl⟩
  rw [hhandles] at hi hlast
  obtain rfl : i = 0 := (Option.some.inj hi).symm
  have hpressed : keys.get 0 = true := hlast 0
  obtain ⟨earlier, taken, found, hearlier, hanswers⟩ := hticking _ _ _ _ hphase
  have hboth : [] ++ [.keypad own (.took keys), .locked skipping] =
      earlier ++ [.keypad own (.took taken), .locked found] := hearlier
  cases (List.append_inj' hboth rfl).2
  have hnew : Machine.new ⟨"", [0xE0, 0x9E]⟩ { instructionsPerTick := 1 } =
      .ok (skipping.machine, [.loaded "" 2]) := rfl
  have hexecutes : t.console.machine.Executes 0xE09E := by
    rw [hconsole]
    exact ⟨rfl, (Machine.fetch_of_new hnew (k := 0) (by decide)).trans rfl, rfl⟩
  refine ⟨hlawful, keys, t, hrun, hpressed, hvisitors, hexecutes, ?_, ?_, ?_⟩
  · rw [hanswers.pressed _ hexecutes (by decide), hconsole]
    have hskips : keys.isPressed 0 = true := hpressed
    exact congrArg (fun skips : Bool => 0x200 + if skips then 4 else 2) hskips
  · exact hrefused 1 0 16 true (by decide) (by rw [hhandles]; rfl) hfree (by decide)
  · obtain ⟨e, -, hstep⟩ := hexecutes.step_eq
    obtain ⟨after, signals, log, hworker⟩ : ∃ after signals log,
        workerNotes ((start .flag skipping).performAll (turns ++ [.work, .work])).2 =
          [.keypad own (.took keys), .locked skipping, .fired after signals log] := by
      rw [performAll_append, hrun]
      simp only [performAll, perform, work, hphase, hstep, Machine.afterExecution]
      exact ⟨_, _, _, rfl⟩
    obtain ⟨-, -, -, -, hfired, -, -⟩ :=
      keys_linearizable hlawful skipping (turns ++ [.work, .work])
    obtain ⟨earlier, taken, found, hearlier, hsame⟩ := hfired
      [.keypad own (.took keys), .locked skipping] after signals log ⟨[], hworker.symm⟩
    have hboth : [] ++ [.keypad own (.took keys), .locked skipping] =
        earlier ++ [.keypad own (.took taken), .locked found] := hearlier
    cases (List.append_inj' hboth rfl).2
    exact ⟨after, signals, log, hworker, hsame⟩

end Threads

end Chip8
