import Chip8.Proofs.Picture
import Chip8.Proofs.Tone

/-!
# What the speaker is told

A console remembers whether its speaker plays. Behind its back the sound timer is changed by the
program, by the ticks of the timers, by resets and by requests to the machine alone; only at the end
of a tick and at a reset does the console look at the timer again.

* `Signal.audio` : the signals for the speaker.
* `Signal.TurnAbout` : start and stop take turns, and start comes first.
* `Signal.change` : what a change of the tone is told as.
* `Console.Told` : what the console remembers is what the speaker was told.
* `Console.Heard` : what the speaker learns from one request, by `Console.heard_of_perform`.
* `Console.audio_turnAbout` : **starts and stops take turns over any requests**, a tick tells at
  most one of each, and after a tick or a reset the speaker agrees with the sound timer.
-/

namespace Chip8

namespace Signal

/-- The signals for the speaker. -/
def audio (signals : List Signal) : List Signal := signals.filter (!·.toDisplay)

/-- Start and stop take turns, and start comes first. -/
def TurnAbout (told : List Signal) : Prop :=
  ∀ i signal, told[i]? = some signal → signal = if i % 2 = 0 then .startSound else .stopSound

/-- What the speaker is told when the tone was `before` and is `after`. -/
def change (before after : Bool) : List Signal :=
  if after = before then [] else [if after then .startSound else .stopSound]

variable {told signals : List Signal}

theorem audio_append (told signals : List Signal) :
    audio (told ++ signals) = audio told ++ audio signals :=
  List.filter_append ..

theorem audio_of_display (h : ∀ signal ∈ signals, signal.toDisplay = true) : audio signals = [] :=
  List.filter_eq_nil_iff.2 fun signal hs => by simp [h signal hs]

@[simp] theorem audio_change (before after : Bool) :
    audio (change before after) = change before after := by
  cases before <;> cases after <;> rfl

theorem playing_eq (told : List Signal) :
    playing told = ((audio told).getLast? == some .startSound) := rfl

theorem playing_append_change (told : List Signal) (after : Bool) :
    playing (told ++ change (playing told) after) = after := by
  by_cases h : after = playing told
  · simp only [change, if_pos h, List.append_nil]
    exact h.symm
  · rw [playing_eq, audio_append, audio_change, change, if_neg h, List.getLast?_concat]
    cases after <;> rfl

/-- While start and stop take turns, the speaker plays after an odd number of them. -/
theorem TurnAbout.playing_iff (h : TurnAbout (audio told)) :
    playing told = true ↔ (audio told).length % 2 = 1 := by
  rw [playing_eq, beq_iff_eq]
  cases hlast : (audio told).getLast? with
  | none => simp [List.getLast?_eq_none_iff.1 hlast]
  | some last =>
    have hl := h ((audio told).length - 1) last (List.getLast?_eq_getElem?.symm.trans hlast)
    have hpos : 0 < (audio told).length := by
      cases hnil : audio told with
      | nil => rw [hnil] at hlast; cases hlast
      | cons => exact Nat.succ_pos _
    rw [hl]
    split
    · simp only [true_iff]
      omega
    · simp only [Option.some.injEq, reduceCtorEq, false_iff]
      omega

/-- The turns go on with what a change of the tone is told as. -/
theorem TurnAbout.append_change (h : TurnAbout (audio told)) (after : Bool) :
    TurnAbout (audio told ++ change (playing told) after) := by
  by_cases hc : after = playing told
  · simpa only [change, if_pos hc, List.append_nil] using h
  · intro i signal hi
    rw [change, if_neg hc] at hi
    rcases Nat.lt_trichotomy i (audio told).length with hlt | rfl | hgt
    · rw [List.getElem?_append_left hlt] at hi
      exact h i signal hi
    · -- the new signal is not the one that was told last
      rw [List.getElem?_concat_length] at hi
      cases hi
      cases after with
      | true =>
        have heven := mt h.playing_iff.2 fun hp => hc hp.symm
        rw [if_pos rfl, if_pos (by omega)]
      | false =>
        have hplays := (Bool.eq_false_or_eq_true _).resolve_right fun hp => hc hp.symm
        have hodd := h.playing_iff.1 hplays
        rw [if_neg Bool.false_ne_true, if_neg (by omega)]
    · rw [List.getElem?_eq_none (by rw [List.length_append, List.length_singleton]; omega)] at hi
      cases hi

end Signal

/-- The tone does not begin by itself. -/
theorem Timers.sounding_of_tick {t : Timers} (h : t.tick.sounding = true) : t.sounding = true := by
  by_cases hz : t.sound = 0
  · simp [sounding, tick, countdown, hz] at h
  · simpa [sounding] using hz

namespace Console

variable {c : Console} {told : List Signal}

/-! ### A look at the sound timer -/

theorem updateAudio_eq (c : Console) :
    c.updateAudio = ({ c with sounding := c.machine.timers.sounding },
      Signal.change c.sounding c.machine.timers.sounding) := by
  simp only [updateAudio, Signal.change]
  split
  · rename_i h
    rw [h]
  · rfl

theorem finishTick_signals (c : Console) :
    c.finishTick.2 = Signal.change c.sounding c.machine.timers.sounding ++
      Signal.change c.machine.timers.sounding c.machine.timers.tick.sounding := by
  simp only [finishTick, updateAudio_eq]
  rfl

theorem sounding_finishTick (c : Console) :
    c.finishTick.1.sounding = c.finishTick.1.machine.timers.sounding := by
  simp only [finishTick, updateAudio_eq]

/-- At most a start and then a stop: while the timers move, a tone may end but none begins. -/
theorem finishTick_signals_mem (c : Console) :
    c.finishTick.2 ∈ [[], [.startSound], [.stopSound], [.startSound, .stopSound]] := by
  have hend := @Timers.sounding_of_tick c.machine.timers
  rw [finishTick_signals]
  generalize c.machine.timers.tick.sounding = after at hend
  generalize c.machine.timers.sounding = now at hend
  cases c.sounding <;> cases now <;> cases after <;> simp [Signal.change] at hend ⊢

/-- What the console remembers of the speaker is what the speaker was told. -/
structure Told (c : Console) (told : List Signal) : Prop where
  /-- Start and stop take turns. -/
  turnAbout : Signal.TurnAbout (Signal.audio told)
  /-- The console remembers the latest of them. -/
  sounding : c.sounding = Signal.playing told

theorem told_nil (m : Machine) : Told { machine := m } [] :=
  ⟨fun i signal h => by simp [Signal.audio] at h, rfl⟩

/-- What the machine does alone is neither told nor remembered. -/
theorem Told.withMachine (h : Told c told) (m : Machine) : Told (c.withMachine m) told :=
  ⟨h.turnAbout, h.sounding⟩

/-- The speaker does not hear what the display is told. -/
theorem Told.append_display (h : Told c told) {signals : List Signal}
    (hs : ∀ signal ∈ signals, signal.toDisplay = true) : Told c (told ++ signals) := by
  refine ⟨?_, ?_⟩
  · rw [Signal.audio_append, Signal.audio_of_display hs, List.append_nil]
    exact h.turnAbout
  · rw [Signal.playing_append hs]
    exact h.sounding

theorem Told.updateAudio (h : Told c told) : Told c.updateAudio.1 (told ++ c.updateAudio.2) := by
  rw [updateAudio_eq, h.sounding]
  refine ⟨?_, (Signal.playing_append_change ..).symm⟩
  rw [Signal.audio_append, Signal.audio_change]
  exact h.turnAbout.append_change _

theorem Told.finishTick (h : Told c told) : Told c.finishTick.1 (told ++ c.finishTick.2) := by
  have hafter := (h.updateAudio.withMachine c.updateAudio.1.machine.tickTimers).updateAudio
  rwa [List.append_assoc] at hafter

/-! ### Requests -/

/-- What the speaker learns from a request, when it was told `told` before. -/
structure Heard {α : Type} (told : List Signal) (reply : Reply (Except Error α)) : Prop where
  /-- The turns go on. -/
  turns : Told reply.console (told ++ reply.signals)
  /-- At most a start and then a stop is told. -/
  audio_mem : Signal.audio reply.signals ∈
    [[], [.startSound], [.stopSound], [.startSound, .stopSound]]
  /-- Where the answer is an error, nothing is told. -/
  audio_of_error : ∀ e, reply.result = .error e → Signal.audio reply.signals = []

theorem heard_of_tick (h : Told c told) (keys : Keypad) (n : Nat) :
    Heard told (c.tick keys n) := by
  -- the steps are told to the display alone
  have hdisplay : ∀ signal ∈ (c.runWith keys n).signals, signal.toDisplay = true :=
    fun _ => toDisplay_of_mem_runWith
  have hnone := Signal.audio_of_display hdisplay
  have hsteps : Told (c.withMachine (c.runWith keys n).machine)
      (told ++ (c.runWith keys n).signals) := (h.withMachine _).append_display hdisplay
  cases he : (c.runWith keys n).error with
  | some e =>
    rw [tick_of_error he]
    exact ⟨hsteps, by simp [hnone], fun _ _ => hnone⟩
  | none =>
    rw [tick_of_ok he]
    refine ⟨?_, ?_, fun e herr => by cases herr⟩
    · have hend := hsteps.finishTick
      rwa [List.append_assoc] at hend
    · simp only [Signal.audio_append, hnone, List.nil_append, finishTick_signals,
        Signal.audio_change]
      rw [← finishTick_signals]
      exact finishTick_signals_mem _

theorem sounding_of_tick {keys : Keypad} {n : Nat} {s : Summary}
    (h : (c.tick keys n).result = .ok s) :
    (c.tick keys n).console.sounding = (c.tick keys n).console.machine.timers.sounding := by
  cases he : (c.runWith keys n).error with
  | some e => rw [tick_of_error he] at h; cases h
  | none => rw [tick_of_ok he]; exact sounding_finishTick _

/-- An answer that is wrapped up is heard as before. -/
theorem Heard.map {α β : Type} {reply : Reply (Except Error α)} (h : Heard told reply)
    (f : α → β) : Heard told { reply with result := reply.result.map f } := by
  refine ⟨h.turns, h.audio_mem, fun e he => ?_⟩
  cases hr : reply.result with
  | error e' => exact h.audio_of_error e' hr
  | ok a => simp only [hr, Except.map, reduceCtorEq] at he

theorem heard_of_perform (h : Told c told) (command : Command) :
    Heard told (c.perform command) := by
  cases command with
  | tick keys n => exact (heard_of_tick h keys n).map _
  | frame keys => exact (heard_of_tick h keys _).map _
  | reset =>
    have hdark : ∀ signal ∈ [Signal.clearDisplay], signal.toDisplay = true := by
      simp [Signal.toDisplay]
    have hreset := ((h.append_display hdark).withMachine c.machine.restart).updateAudio
    rw [List.append_assoc] at hreset
    refine ⟨hreset, ?_, fun e he => by cases he⟩
    -- the timers are at zero, so that a tone can only end
    simp only [perform, reset, updateAudio_eq]
    change Signal.audio (.clearDisplay :: Signal.change c.sounding false) ∈ _
    cases c.sounding <;> decide
  | machine command =>
    refine ⟨?_, by simp [perform, Signal.audio], fun _ _ => rfl⟩
    simpa [perform] using h.withMachine (c.machine.perform command).machine

/-- After a tick, a frame or a reset without an error the console remembers the sound timer. -/
theorem sounding_of_perform {command : Command} {answer : Answer} (hd : command.isDirect = false)
    (h : (c.perform command).result = .ok answer) :
    (c.perform command).console.sounding =
      (c.perform command).console.machine.timers.sounding := by
  have hmap : ∀ {r : Except Error Summary}, r.map Answer.ticked = .ok answer → ∃ s, r = .ok s := by
    intro r hr
    cases r with
    | error e => cases hr
    | ok s => exact ⟨s, rfl⟩
  cases command with
  | tick keys n =>
    obtain ⟨s, hs⟩ := hmap h
    exact sounding_of_tick hs
  | frame keys =>
    obtain ⟨s, hs⟩ := hmap h
    exact sounding_of_tick hs
  | reset => simp only [perform, reset, updateAudio_eq]
  | machine command => cases hd

theorem told_of_performAll (m : Machine) (commands : List Command) :
    Told (performAll { machine := m } commands).console
      (performAll { machine := m } commands).signals :=
  performAll_invariant (P := Told) (fun command _ _ _ h => (heard_of_perform h command).turns) []
    (told_nil m)

/-- **Starts and stops take turns.**  Whatever is asked of a console, past its speaker or not, the
starts and stops over all of it take turns, with a start first. Each request, a tick as well, tells
the speaker nothing, or to start, or to stop, or to start and then to stop, and nothing if the
answer is an error. After a tick, a frame or a reset that is answered without an error, the speaker
was last told to start exactly if the sound timer is not zero. -/
theorem audio_turnAbout (m : Machine) (commands : List Command) :
    let reply := performAll { machine := m } commands
    Signal.TurnAbout (Signal.audio reply.signals) ∧
      ∀ command,
        let next := reply.console.perform command
        Signal.audio next.signals ∈
            [[], [.startSound], [.stopSound], [.startSound, .stopSound]] ∧
          (∀ e, next.result = .error e → Signal.audio next.signals = []) ∧
          (command.isDirect = false → ∀ answer, next.result = .ok answer →
            Signal.playing (reply.signals ++ next.signals) =
              next.console.machine.timers.sounding) := by
  intro reply
  have htold : Told reply.console reply.signals := told_of_performAll m commands
  refine ⟨htold.turnAbout, fun command => ?_⟩
  have hheard := heard_of_perform htold command
  refine ⟨hheard.audio_mem, hheard.audio_of_error, fun hd answer ha => ?_⟩
  rw [← hheard.turns.sounding]
  exact sounding_of_perform hd ha

/-- A halted machine whose sound timer is about to run out. -/
def expiring : Machine :=
  { Machine.boot "" Memory.initial {} .zeros with
    timers := { sound := 1 }, halted := some (.stack .underflow) }

/-- A tick without instructions starts the tone and stops it, and one with an instruction meets the
halt. -/
theorem audio_turnAbout_expiring :
    (perform { machine := expiring } (.tick .released 0)).result = .ok (.ticked {}) ∧
      Signal.audio (perform { machine := expiring } (.tick .released 0)).signals =
        [.startSound, .stopSound] ∧
      Signal.playing (perform { machine := expiring } (.tick .released 0)).signals =
        (perform { machine := expiring } (.tick .released 0)).console.machine.timers.sounding ∧
      (perform { machine := expiring } (.tick .released 1)).result = .error .halted ∧
      Signal.audio (perform { machine := expiring } (.tick .released 1)).signals = [] := by
  have hturn := (audio_turnAbout expiring []).2
  have hok : (perform { machine := expiring } (.tick .released 0)).result = .ok (.ticked {}) := rfl
  have herr : (perform { machine := expiring } (.tick .released 1)).result = .error .halted := rfl
  have haudio : Signal.audio (perform { machine := expiring } (.tick .released 0)).signals =
      [.startSound, .stopSound] := by
    decide
  obtain ⟨-, -, hagrees⟩ := hturn (.tick .released 0)
  obtain ⟨-, hnone, -⟩ := hturn (.tick .released 1)
  exact ⟨hok, haudio, hagrees rfl _ hok, herr, hnone _ herr⟩

end Console

end Chip8
