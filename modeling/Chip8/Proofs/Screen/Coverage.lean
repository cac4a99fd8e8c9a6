import Chip8.Screen.Sprite
import Mathlib.Algebra.BigOperators.Group.Finset.Piecewise
import Mathlib.Algebra.BigOperators.Group.Finset.Sigma
import Mathlib.Data.Nat.Bits

/-!
# What a sprite covers

The screen is a torus: a sprite that leaves it on one side comes in on the other, and one that is
higher than the screen falls on its own rows again. So a pixel can lie under any number of bits of a
sprite, and a drawing turns it over once for each of them.

* `Sprite.setBits` : the set bits of a sprite, by row and column.
* `Sprite.coverage` : how many of them fall on a pixel.
* `Sprite.count_hits`, `Sprite.length_hits` : the pixels that are turned over, counted.
* `Drawing.get_foldl_hit`, `Drawing.collision_foldl_hit` : pixels turned over in any order.
* `Screen.get_draw`, `Screen.collision_draw` : **a drawing turns a pixel over as often as it is
  covered, and collides if one of them goes off on the way.**
-/

namespace Chip8

namespace Pixel

theorem wrap_eq_iff {x y : Nat} {p : Pixel} :
    wrap x y = p ↔ x % Screen.width = p.x ∧ y % Screen.height = p.y := by
  obtain ⟨px, py⟩ := p
  simp only [wrap, mk.injEq, Fin.ext_iff]

theorem wrap_add_congr {x y x' y' : Nat} (hx : x % Screen.width = x' % Screen.width)
    (hy : y % Screen.height = y' % Screen.height) (c : Nat) :
    wrap (x + c) y = wrap (x' + c) y' := by
  simp only [wrap, mk.injEq, Fin.mk.injEq]
  exact ⟨Nat.add_mod_eq_add_mod_right c hx, hy⟩

end Pixel

namespace Sprite

open Finset

/-- The set bits of a sprite, each as its row and its column. -/
def setBits (sprite : List Byte) : Finset (ℕ × ℕ) :=
  {rc ∈ range sprite.length ×ˢ range width | sprite.getD rc.1 0 &&& ((0x80 : Byte) >>> rc.2) ≠ 0}

/-- The number of set bits that fall on a pixel, with the sprite's upper left corner at column `x`
and row `y`. -/
def coverage (x y : Nat) (sprite : List Byte) (p : Pixel) : ℕ :=
  #{rc ∈ setBits sprite | (x + rc.2) % Screen.width = p.x ∧ (y + rc.1) % Screen.height = p.y}

variable {x y : Nat} {sprite : List Byte} {p : Pixel}

theorem one_le_coverage_iff :
    1 ≤ coverage x y sprite p ↔ ∃ rc ∈ setBits sprite, Pixel.wrap (x + rc.2) (y + rc.1) = p := by
  rw [Nat.one_le_iff_ne_zero, ← Nat.pos_iff_ne_zero, coverage, card_pos]
  simp only [Finset.Nonempty, mem_filter, Pixel.wrap_eq_iff]

/-! ### The pixels that are turned over -/

theorem countP_rowHits (x y : Nat) (row : Byte) (q : Pixel → Bool) :
    (rowHits x y row).countP q =
      #{c ∈ range width | row &&& ((0x80 : Byte) >>> c) ≠ 0 ∧ q (Pixel.wrap (x + c) y) = true} := by
  have hbit : ∀ c ∈ List.range width,
      (row &&& ((0x80 : Byte) >>> c) ≠ 0 ↔ row.getMsbD c = true) := fun c hc => by
    rw [Ne, and_shifted_mask row (List.mem_range.1 hc), Bool.not_eq_false]
  -- the columns are counted in their order, on either side
  rw [rowHits, List.countP_filterMap, List.countP_eq_length_filter]
  refine congrArg List.length (List.filter_congr fun c hc => ?_)
  simp only [hbit c hc]
  cases row.getMsbD c <;> simp

/-- The set bits can be counted row by row. -/
theorem card_filter_setBits (sprite : List Byte) (q : ℕ × ℕ → Prop) [DecidablePred q] :
    #{rc ∈ setBits sprite | q rc} =
      ∑ r ∈ range sprite.length,
        #{c ∈ range width | sprite.getD r 0 &&& ((0x80 : Byte) >>> c) ≠ 0 ∧ q (r, c)} := by
  rw [setBits, filter_filter, card_filter, sum_product]
  simp only [card_filter]

/-- One pixel is turned over for each set bit. -/
theorem countP_hits (x y : Nat) (sprite : List Byte) (q : Pixel → Bool) :
    (hits x y sprite).countP q =
      #{rc ∈ setBits sprite | q (Pixel.wrap (x + rc.2) (y + rc.1)) = true} := by
  rw [card_filter_setBits]
  induction sprite generalizing y with
  | nil => rfl
  | cons row sprite ih =>
    rw [hits, List.countP_append, countP_rowHits, ih, List.length_cons, sum_range_succ', add_comm]
    simp only [List.getD_cons_succ, List.getD_cons_zero, Nat.add_zero, Nat.add_right_comm y,
      Nat.add_assoc y]

theorem count_hits (x y : Nat) (sprite : List Byte) (p : Pixel) :
    (hits x y sprite).count p = coverage x y sprite p := by
  rw [List.count, countP_hits, coverage]
  simp only [beq_iff_eq, Pixel.wrap_eq_iff]

theorem length_hits (x y : Nat) (sprite : List Byte) :
    (hits x y sprite).length = #(setBits sprite) := by
  rw [← List.countP_true, countP_hits]
  simp only [filter_true]

/-- The corner counts as far as it goes around the screen. -/
theorem hits_congr {x' y' : Nat} (hx : x % Screen.width = x' % Screen.width)
    (hy : y % Screen.height = y' % Screen.height) : hits x y sprite = hits x' y' sprite := by
  induction sprite generalizing y y' with
  | nil => rfl
  | cons row sprite ih =>
    rw [hits, hits, ih (Nat.add_mod_eq_add_mod_right 1 hy), rowHits, rowHits]
    simp only [Pixel.wrap_add_congr hx hy]

end Sprite

/-! ### Turning pixels over -/

namespace Drawing

theorem get_foldl_hit (ps : List Pixel) (d : Drawing) (q : Pixel) :
    (ps.foldl hit d).screen.get q = (d.screen.get q ^^ (ps.count q).bodd) := by
  induction ps generalizing d with
  | nil => rw [List.foldl_nil, List.count_nil, Nat.bodd_zero, Bool.xor_false]
  | cons p ps ih =>
    rw [List.foldl_cons, ih, hit, Screen.get_flip]
    by_cases hq : p = q
    · rw [hq, if_pos rfl, List.count_cons_self, Nat.bodd_succ, Bool.not_xor, Bool.xor_not]
    · rw [if_neg hq, List.count_cons_of_ne hq]

/-- A pixel that is turned over `k` times, from `on`, goes off on the way. -/
def GoesOff (on : Bool) (k : ℕ) : Prop := 1 ≤ k ∧ on = true ∨ 2 ≤ k

theorem not_goesOff_zero (on : Bool) : ¬ GoesOff on 0 := by simp [GoesOff]

theorem goesOff_succ {on : Bool} {k : ℕ} : GoesOff on (k + 1) ↔ on = true ∨ GoesOff (!on) k := by
  cases on <;> simp only [GoesOff] <;> grind

theorem collision_foldl_hit (ps : List Pixel) (d : Drawing) :
    (ps.foldl hit d).collision = true ↔
      d.collision = true ∨ ∃ q, GoesOff (d.screen.get q) (ps.count q) := by
  induction ps generalizing d with
  | nil => simp [not_goesOff_zero]
  | cons p ps ih =>
    -- the first turn decides about its own pixel, and leaves all others to the later ones
    have hp : GoesOff (d.screen.get p) ((p :: ps).count p) ↔
        d.screen.get p = true ∨ GoesOff ((d.hit p).screen.get p) (ps.count p) := by
      rw [List.count_cons_self, goesOff_succ, hit, Screen.get_flip, if_pos rfl]
    have hne : ∀ q, p ≠ q → (GoesOff (d.screen.get q) ((p :: ps).count q) ↔
        GoesOff ((d.hit p).screen.get q) (ps.count q)) := fun q hq => by
      rw [List.count_cons_of_ne hq, hit, Screen.get_flip, if_neg hq]
    rw [List.foldl_cons, ih, hit, Bool.or_eq_true, or_assoc]
    refine or_congr_right ⟨?_, ?_⟩
    · rintro (hlit | ⟨q, hq⟩)
      · exact ⟨p, hp.2 (.inl hlit)⟩
      · by_cases hpq : p = q
        · subst hpq
          exact ⟨p, hp.2 (.inr hq)⟩
        · exact ⟨q, (hne q hpq).2 hq⟩
    · rintro ⟨q, hq⟩
      by_cases hpq : p = q
      · subst hpq
        exact (hp.1 hq).imp_right fun h => ⟨p, h⟩
      · exact .inr ⟨q, (hne q hpq).1 hq⟩

end Drawing

/-! ### Whole sprites -/

namespace Screen

variable (s : Screen) (x y : Nat) (sprite : List Byte)

theorem get_draw (p : Pixel) :
    (s.draw x y sprite).screen.get p = (s.get p ^^ (Sprite.coverage x y sprite p).bodd) := by
  rw [draw, Drawing.get_foldl_hit, Sprite.count_hits]

theorem collision_draw :
    (s.draw x y sprite).collision = true ↔
      ∃ p, Drawing.GoesOff (s.get p) (Sprite.coverage x y sprite p) := by
  rw [draw, Drawing.collision_foldl_hit]
  simp only [Sprite.count_hits, Bool.false_eq_true, false_or]

end Screen

end Chip8
