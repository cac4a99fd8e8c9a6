import Chip8.Proofs.Screen.Coverage

/-!
# The pixels that are on

A drawing turns over one pixel for each set bit of its sprite. A pixel that goes on adds one to the
pixels that are on, and a pixel that goes off takes one away and is a collision.

* `Screen.lit_flip_of_off`, `Screen.lit_flip_of_on` : one pixel goes on, or off.
* `Drawing.Balanced` : what some turns in a row make of the count. `Balanced.trans` joins two rows.
* `Drawing.balanced_hit`, `Drawing.balanced_foldl_hit` : one turn, and any number of them.
* `Screen.lit_draw_balance` : **a drawing adds its set bits to the pixels that are on, less an even
  number, and less nothing exactly if it does not collide.**
-/

namespace Chip8

namespace Screen

variable {s : Screen}

theorem lit_eq_count (s : Screen) : s.lit = s.cells.count true := Vector.count_toList

theorem lit_flip_of_off {p : Pixel} (h : s.get p = false) : (s.flip p).lit = s.lit + 1 := by
  rw [get, Fin.getElem_fin] at h
  rw [lit_eq_count, lit_eq_count, flip, Vector.count_set p.index.isLt, Fin.getElem_fin, h]
  rfl

theorem lit_flip_of_on {p : Pixel} (h : s.get p = true) : (s.flip p).lit + 1 = s.lit := by
  rw [get, Fin.getElem_fin] at h
  have hpos : 0 < s.cells.count true :=
    Vector.count_pos_iff.2 (h ▸ Vector.getElem_mem p.index.isLt)
  rw [lit_eq_count, lit_eq_count, flip, Vector.count_set p.index.isLt, Fin.getElem_fin, h]
  exact Nat.sub_add_cancel hpos

theorem isBlank_iff : s.isBlank = true ↔ s.lit = 0 := by
  rw [isBlank, Vector.all_eq_true', lit, List.count_eq_zero]
  simp

theorem lit_le (s : Screen) : s.lit ≤ 2048 := by
  have h : s.cells.toList.length = resolution := Vector.length_toList
  exact List.count_le_length.trans h.le

end Screen

namespace Drawing

/-- Between `d` and `d'`, `n` pixels are turned over. -/
structure Balanced (d : Drawing) (n : ℕ) (d' : Drawing) : Prop where
  /-- Each of them can go on. -/
  le : d'.screen.lit ≤ d.screen.lit + n
  /-- Each of them changes the parity. -/
  parity : d'.screen.lit % 2 = (d.screen.lit + n) % 2
  /-- None of them goes off exactly if each of them adds one. -/
  collision : d'.collision = false ↔ d.collision = false ∧ d'.screen.lit = d.screen.lit + n

theorem balanced_refl (d : Drawing) : d.Balanced 0 d := ⟨Nat.le_refl _, rfl, by simp⟩

theorem Balanced.trans {d d' d'' : Drawing} {n n' : ℕ} (h : d.Balanced n d')
    (h' : d'.Balanced n' d'') : d.Balanced (n + n') d'' where
  le := by have := h.le; have := h'.le; omega
  parity := by have := h.parity; have := h'.parity; omega
  collision := by
    have := h.le
    have := h'.le
    rw [h'.collision, h.collision, and_assoc]
    refine and_congr_right fun _ => ?_
    -- neither row can make up for a pixel that the other one loses
    omega

theorem balanced_hit (d : Drawing) (p : Pixel) : d.Balanced 1 (d.hit p) := by
  have hcollision : (d.hit p).collision = (d.collision || d.screen.get p) := rfl
  cases hp : d.screen.get p with
  | false =>
    have hlit : (d.hit p).screen.lit = d.screen.lit + 1 := Screen.lit_flip_of_off hp
    refine ⟨hlit.le, by rw [hlit], ?_⟩
    rw [hcollision, hp, Bool.or_false, and_iff_left hlit]
  | true =>
    have hlit : (d.hit p).screen.lit + 1 = d.screen.lit := Screen.lit_flip_of_on hp
    refine ⟨by omega, by omega, ?_⟩
    rw [hcollision, hp, Bool.or_true]
    simp only [Bool.true_eq_false, false_iff]
    omega

theorem balanced_foldl_hit (ps : List Pixel) (d : Drawing) :
    d.Balanced ps.length (ps.foldl hit d) := by
  induction ps generalizing d with
  | nil => exact d.balanced_refl
  | cons p ps ih =>
    rw [List.length_cons, Nat.add_comm]
    exact (d.balanced_hit p).trans (ih _)

end Drawing

namespace Screen

open Finset

/-- **The pixels that are on balance.**  Each set bit of a sprite turns one pixel over, wherever the
sprite is drawn and however high it is. So a drawing leaves as many pixels on as there were before
and as the sprite has set bits, less an even number, and this number is zero exactly if the drawing
does not collide. A screen is blank exactly if no pixel is counted, and at most 2048 are. -/
theorem lit_draw_balance (s : Screen) (x y : Nat) (sprite : List Byte) :
    let b := #(Sprite.setBits sprite)
    let d := s.draw x y sprite
    d.screen.lit ≤ s.lit + b ∧ d.screen.lit % 2 = (s.lit + b) % 2 ∧
      (d.collision = false ↔ d.screen.lit = s.lit + b) ∧
      (s.isBlank = true ↔ s.lit = 0) ∧ s.lit ≤ 2048 := by
  intro b d
  have h : Drawing.Balanced { screen := s } b d := by
    rw [show b = _ from (Sprite.length_hits x y sprite).symm]
    exact Drawing.balanced_foldl_hit ..
  exact ⟨h.le, h.parity, h.collision.trans (and_iff_right rfl), isBlank_iff, s.lit_le⟩

end Screen

end Chip8
