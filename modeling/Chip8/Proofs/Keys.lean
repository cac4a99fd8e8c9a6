import Chip8.Proofs.Counter

/-!
# Questions about keys

Three instructions ask for keys: two skip, and one stores the least pressed key. They are answered
from the keys that the machine holds.

* `Keypad.firstPressed_eq_some_iff`, `Keypad.firstPressed_eq_none_iff` : the least pressed key.
* `Instruction.ofWord_of_readKey` : the word that stores a key.
* `Machine.AnswersFrom`, `Machine.answersFrom_keypad` : **the next step answers its question from
  the keys that the machine holds.**
-/

namespace Chip8

namespace Keypad

variable {p : Keypad} {k : Key}

theorem firstPressed_eq_some_iff :
    p.firstPressed = some k ↔ p.get k = true ∧ ∀ j < k, p.get j = false := by
  simp only [firstPressed, List.find?_eq_some_iff_getElem, List.getElem_finRange,
    List.length_finRange, Bool.not_eq_true']
  refine and_congr_right fun _ => ⟨?_, fun h => ?_⟩
  · rintro ⟨i, hi, rfl, h⟩ j hj
    exact h j.val hj
  · exact ⟨k.val, k.isLt, rfl, fun j hj => h ⟨j, Nat.lt_trans hj k.isLt⟩ hj⟩

theorem firstPressed_eq_none_iff : p.firstPressed = none ↔ ∀ k, p.get k = false := by
  simp [firstPressed]

end Keypad

theorem Instruction.ofWord_of_readKey {w : Word} (h : w.fits "FX0A" = true) :
    ofWord w = .readKey w.x := by
  simp [Word.fits, Pattern.admits, Hex.value] at h
  simp [ofWord, ofFields, ofDevices, Fields.family_ofWord, Fields.nn_ofWord, Fields.x_eq, h]

namespace Machine

variable {m : Machine}

/-- The next step answers its question about keys, if it has one, from `keys`: an `EX9E` skips if
key `VX` is pressed, an `EXA1` if it is not, and an `FX0A` stores the least pressed key, or leaves
`VX` as it is if no key is pressed. -/
structure AnswersFrom (m : Machine) (keys : Keypad) : Prop where
  pressed : ∀ w, m.Executes w → w.fits "EX9E" = true →
    m.step.machine.registers.pc =
      m.registers.pc + if keys.isPressed (m.registers.get w.x).toNat then 4 else 2
  released : ∀ w, m.Executes w → w.fits "EXA1" = true →
    m.step.machine.registers.pc =
      m.registers.pc + if keys.isPressed (m.registers.get w.x).toNat then 2 else 4
  stored : ∀ w, m.Executes w → w.fits "FX0A" = true → ∀ k, keys.get k = true →
    (∀ j < k, keys.get j = false) → m.step.machine.registers.get w.x = .ofNat 8 k
  kept : ∀ w, m.Executes w → w.fits "FX0A" = true → (∀ k, keys.get k = false) →
    m.step.machine.registers.get w.x = m.registers.get w.x

variable (m) in
theorem answersFrom_keypad : m.AnswersFrom m.keypad := by
  have hread : ∀ {w : Word}, m.Executes w → w.fits "FX0A" = true →
      m.step.machine.registers.get w.x =
        (m.keypad.firstPressed.map fun k => .ofNat 8 k).getD (m.registers.get w.x) := by
    intro w hw hfits
    obtain ⟨e, hx, hstep⟩ := hw.step_eq
    rw [Instruction.ofWord_of_readKey hfits] at hx
    rw [hstep]
    cases executed_of_execute hx with
    | keyRead hk =>
      rw [show m.keypad.firstPressed = _ from hk, Option.map_some, Option.getD_some]
      exact (Registers.get_set ..).trans (if_pos rfl)
    | keyAwaited hk =>
      rw [show m.keypad.firstPressed = _ from hk]
      rfl
  refine ⟨fun w hw hfits => ?_, fun w hw hfits => ?_, fun w hw hfits k hk hleast => ?_,
    fun w hw hfits hnone => ?_⟩
  · have hturn : ("EX9E", .skip (.pressed w.x)) ∈ w.turns := by simp [Word.turns]
    rw [pc_of_skip_row hw.running hw.fetched hturn hfits, Condition.test]
    cases m.keypad.isPressed (m.registers.get w.x).toNat <;> rfl
  · have hturn : ("EXA1", .skip (.released w.x)) ∈ w.turns := by simp [Word.turns]
    rw [pc_of_skip_row hw.running hw.fetched hturn hfits, Condition.test]
    cases m.keypad.isPressed (m.registers.get w.x).toNat <;> rfl
  · rw [hread hw hfits, Keypad.firstPressed_eq_some_iff.2 ⟨hk, hleast⟩]
    rfl
  · rw [hread hw hfits, Keypad.firstPressed_eq_none_iff.2 hnone]
    rfl

end Machine

end Chip8
