import Chip8.Proofs.Cells
import Chip8.Proofs.Faults
import Chip8.Proofs.Screen.Coverage

/-!
# Drawing on the torus

What a sprite leaves on the screen, pixel by pixel, and what a `DXYN` makes of it.

* `Machine.step_of_draw` : what a step leaves behind that executes a `DXYN`.
* `Screen.draw_xor` : **a drawing is the exclusive or of the screen and the sprite, around the
  edges, and collides exactly if a pixel goes off.**
-/

namespace Chip8

theorem Instruction.ofWord_of_draw {w : Word} (h : w.fits "DXYN" = true) :
    ofWord w = .draw w.x w.y (Fields.ofWord w).n := by
  simp [Word.fits, Pattern.admits, Hex.value] at h
  simp [ofWord, ofFields, Fields.family_ofWord, Fields.x_eq, Fields.y_eq, h]

namespace Machine

variable {m : Machine} {w : Word}

/-- The cells from the index on that a `DXYN` draws. -/
def sprite (m : Machine) (w : Word) : List Byte :=
  (m.memory.cells.toList.take (m.registers.index.toNat + w.digit 0)).drop m.registers.index.toNat

theorem step_of_draw (hm : m.halted = none) (hf : m.memory.fetch m.registers.pc = .ok w)
    (hfits : w.fits "DXYN" = true)
    (hrows : m.registers.index.toNat + w.digit 0 ≤ Memory.size) :
    let d := m.screen.draw (m.registers.get w.x).toNat (m.registers.get w.y).toNat (m.sprite w)
    m.step = m.afterExecution w
      { machine :=
          { m.fetched w with
            screen := d.screen, registers := (m.fetched w).registers.setFlag d.collision }
        effect := .drawn } := by
  refine step_of_executed hm hf ?_
  have hslice : (m.fetched w).memory.slice (m.fetched w).registers.index.toNat (Fields.ofWord w).n =
      .ok (m.sprite w) := by
    rw [Fields.n_ofWord]
    exact Memory.slice_of_le _ hrows
  rw [Instruction.ofWord_of_draw hfits, execute, executeDraw, hslice]
  rfl

end Machine

namespace Screen

/-- **A drawing is the exclusive or of the screen and the sprite on the torus.**  Each pixel is
turned over once for every set bit of the sprite that falls on it, wherever the sprite's corner is
and however high the sprite; the drawing collides exactly if a pixel is covered that was on, or
covered twice. Of the corner it only matters where on the screen it falls. A `DXYN` draws the cells
from the index on, if memory has as many, at the values that `VX` and `VY` have before it, whichever
registers they are; then it sets the flag register, and it changes no other register, nor the index,
nor memory. -/
theorem draw_xor :
    (∀ (s : Screen) (x y : Nat) (sprite : List Byte),
      let k := Sprite.coverage x y sprite
      let d := s.draw x y sprite
      (∀ p, d.screen.get p = (s.get p ^^ (k p).bodd)) ∧
      (d.collision = true ↔ ∃ p, 1 ≤ k p ∧ s.get p = true ∨ 2 ≤ k p) ∧
      ∀ x' y', x' % 64 = x % 64 → y' % 32 = y % 32 → s.draw x' y' sprite = d) ∧
    ∀ (m : Machine) (w : Word), m.halted = none → m.memory.fetch m.registers.pc = .ok w →
      w.fits "DXYN" = true → m.registers.index.toNat + w.digit 0 ≤ 0x1000 →
      let d := m.screen.draw (m.registers.get w.x).toNat (m.registers.get w.y).toNat (m.sprite w)
      let n := m.step.machine
      m.step.result = .ok .drawn ∧ n.screen = d.screen ∧
      n.registers.flag = (if d.collision then 1 else 0) ∧
      (∀ z, z ≠ Registers.flagRegister → n.registers.get z = m.registers.get z) ∧
      n.registers.index = m.registers.index ∧ n.memory = m.memory := by
  refine ⟨fun s x y sprite => ⟨s.get_draw x y sprite, s.collision_draw x y sprite,
    fun x' y' hx hy => ?_⟩, fun m w hm hf hfits hrows => ?_⟩
  · rw [draw, draw, Sprite.hits_congr hx hy]
  · intro d n
    have hstep := Machine.step_of_draw hm hf hfits hrows
    have hn : n = _ := congrArg (·.machine) hstep
    rw [hstep, hn]
    refine ⟨rfl, rfl, ?_, fun z hz => ?_, rfl, rfl⟩
    · exact (Registers.get_setFlag ..).trans (if_pos rfl)
    · exact (Registers.get_setFlag ..).trans (if_neg hz.symm)

/-- A machine that draws at the lower right corner of the screen, where one pixel is on. -/
def cornered : Machine :=
  let m := Machine.drawing 0xFFB
  { m with
    registers := (m.registers.set ⟨5, by decide⟩ 62).set ⟨13, by decide⟩ 31
    screen := blank.flip (.wrap 63 31) }

/-- The second bit of the sprite turns the pixel off, and the third one comes in at the left. -/
theorem draw_xor_cornered :
    let n := cornered.step.machine
    cornered.halted = none ∧ cornered.memory.fetch cornered.registers.pc = .ok 0xD5D5 ∧
      n.screen.get (.wrap 63 31) = false ∧ n.screen.get (.wrap 1 31) = true ∧
      n.registers.flag = 1 ∧ n.registers.get ⟨5, by decide⟩ = 62 ∧
      cornered.screen.draw 126 63 (.replicate 5 0xD5) =
        cornered.screen.draw 62 31 (.replicate 5 0xD5) := by
  intro n
  have hf : cornered.memory.fetch cornered.registers.pc = .ok 0xD5D5 := by
    rw [← Machine.word_drawing 0xFFB]
    exact Memory.fetch_of_le (by decide)
  have hsprite : cornered.sprite 0xD5D5 = .replicate 5 0xD5 := by
    have hcells : cornered.memory.cells.toList = .replicate 0x1000 0xD5 := Vector.toList_replicate
    rw [Machine.sprite, hcells, List.take_replicate, List.drop_replicate]
    rfl
  obtain ⟨hdraw, hstep⟩ := draw_xor
  obtain ⟨hget, hcollision, hcorner⟩ := hdraw cornered.screen 62 31 (.replicate 5 0xD5)
  obtain ⟨-, hscreen, hflag, hkept, -, -⟩ := hstep cornered 0xD5D5 rfl hf (by decide) (by decide)
  have hx : (cornered.registers.get (Word.x 0xD5D5)).toNat = 62 := rfl
  have hy : (cornered.registers.get (Word.y 0xD5D5)).toNat = 31 := rfl
  rw [hsprite, hx, hy] at hscreen hflag
  have hlit : cornered.screen.get (.wrap 63 31) = true := by
    rw [cornered, get_flip, if_pos rfl, get_blank, Bool.not_false]
  have hdark : cornered.screen.get (.wrap 1 31) = false := by
    rw [cornered, get_flip, if_neg (by decide), get_blank]
  have hcovered : Sprite.coverage 62 31 (.replicate 5 0xD5) (.wrap 63 31) = 1 := by decide
  have hcovers : Sprite.coverage 62 31 (.replicate 5 0xD5) (.wrap 1 31) = 1 := by decide
  refine ⟨rfl, hf, ?_, ?_, ?_, hkept _ (by decide), hcorner 126 63 rfl rfl⟩
  · rw [hscreen, hget, hlit, hcovered]; rfl
  · rw [hscreen, hget, hdark, hcovers]; rfl
  · rw [hflag, hcollision.2 ⟨_, .inl ⟨Nat.le_of_eq hcovered.symm, hlit⟩⟩]; rfl

end Screen

end Chip8
