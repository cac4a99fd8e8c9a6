import Chip8.Proofs.Screen.Coverage
import Mathlib.Algebra.BigOperators.Group.List.Basic
import Mathlib.Algebra.Ring.Nat

/-!
# Sprites over one another

Sprites that are drawn one after the other leave each pixel turned over as often as all of them
together cover it. So the order of the drawings does not matter, and two equal ones undo each other.

* `Screen.Draw`, `Screen.overlay` : a list of drawings.
* `Screen.get_overlay` : a pixel under all of them.
* `Sprite.coverage_le_one` : a sprite that is not higher than the screen covers no pixel twice.
* `Screen.overlay_commutes_cancels` : **drawings commute and cancel**, and one of two equal ones
  collides if the sprite has a set bit at all.
-/

namespace Chip8

namespace Sprite

open Finset

variable {x y : Nat} {sprite : List Byte} {p : Pixel} {rc : ℕ × ℕ}

theorem lt_of_mem_setBits (h : rc ∈ setBits sprite) : rc.1 < sprite.length ∧ rc.2 < width := by
  simpa only [mem_product, mem_range] using (mem_filter.1 h).1

/-- Eight columns and 32 rows do not reach around the screen. -/
theorem coverage_le_one (h : sprite.length ≤ Screen.height) : coverage x y sprite p ≤ 1 := by
  refine card_le_one.2 fun a ha b hb => ?_
  obtain ⟨ha, hax, hay⟩ := mem_filter.1 ha
  obtain ⟨hb, hbx, hby⟩ := mem_filter.1 hb
  obtain ⟨ha₁, ha₂⟩ := lt_of_mem_setBits ha
  obtain ⟨hb₁, hb₂⟩ := lt_of_mem_setBits hb
  -- two bits on one pixel are a multiple of 64 columns and of 32 rows apart
  simp only [width, Screen.width, Screen.height] at *
  exact Prod.ext (by omega) (by omega)

theorem coverage_of_mem (h : sprite.length ≤ Screen.height) (hrc : rc ∈ setBits sprite) :
    coverage x y sprite (.wrap (x + rc.2) (y + rc.1)) = 1 :=
  Nat.le_antisymm (coverage_le_one h) (one_le_coverage_iff.2 ⟨rc, hrc, rfl⟩)

end Sprite

namespace Screen

open Sprite (setBits coverage)

/-- A sprite and where it is drawn. -/
structure Draw where
  /-- The column of its upper left corner. -/
  x : Nat
  /-- The row of its upper left corner. -/
  y : Nat
  /-- The rows of the sprite. -/
  sprite : List Byte

/-- The screen with some sprites drawn one after the other. -/
def overlay (s : Screen) (draws : List Draw) : Screen :=
  draws.foldl (fun s d => (s.draw d.x d.y d.sprite).screen) s

variable (s : Screen) (x y : Nat) {sprite : List Byte}

theorem get_overlay (draws : List Draw) (p : Pixel) :
    (s.overlay draws).get p =
      (s.get p ^^ ((draws.map fun d => coverage d.x d.y d.sprite p).sum).bodd) := by
  induction draws generalizing s with
  | nil => simp [overlay]
  | cons d draws ih =>
    have hnext : s.overlay (d :: draws) = (s.draw d.x d.y d.sprite).screen.overlay draws := rfl
    rw [hnext, ih, get_draw, List.map_cons, List.sum_cons, Nat.bodd_add, Bool.xor_assoc]

theorem overlay_perm {draws draws' : List Draw} (h : draws.Perm draws') :
    s.overlay draws = s.overlay draws' := by
  refine ext_get fun p => ?_
  rw [get_overlay, get_overlay, (h.map _).sum_eq]

/-- Two equal drawings cover each pixel an even number of times. -/
theorem overlay_cancel (before between behind : List Draw) (d : Draw) :
    s.overlay (before ++ d :: between ++ d :: behind) =
      s.overlay (before ++ between ++ behind) := by
  refine ext_get fun p => ?_
  simp only [get_overlay, List.map_append, List.map_cons, List.sum_append, List.sum_cons,
    Nat.bodd_add]
  cases (coverage d.x d.y d.sprite p).bodd <;> simp

theorem draw_draw : ((s.draw x y sprite).screen.draw x y sprite).screen = s :=
  s.overlay_cancel [] [] [] ⟨x, y, sprite⟩

/-! ### Sprites that are not higher than the screen -/

variable {s x y}

/-- Each set bit turns its pixel over, and no other set bit does. -/
theorem get_draw_of_mem (h : sprite.length ≤ height) {rc : ℕ × ℕ} (hrc : rc ∈ setBits sprite) :
    (s.draw x y sprite).screen.get (.wrap (x + rc.2) (y + rc.1)) =
      !s.get (.wrap (x + rc.2) (y + rc.1)) := by
  rw [get_draw, Sprite.coverage_of_mem h hrc, Nat.bodd_one, Bool.xor_true]

theorem collision_draw_iff (h : sprite.length ≤ height) :
    (s.draw x y sprite).collision = true ↔
      ∃ rc ∈ setBits sprite, s.get (.wrap (x + rc.2) (y + rc.1)) = true := by
  rw [collision_draw]
  constructor
  · rintro ⟨p, ⟨hcovered, hlit⟩ | htwice⟩
    · obtain ⟨rc, hrc, rfl⟩ := Sprite.one_le_coverage_iff.1 hcovered
      exact ⟨rc, hrc, hlit⟩
    · exact absurd htwice (Nat.not_lt_of_le (Sprite.coverage_le_one h))
  · rintro ⟨rc, hrc, hlit⟩
    exact ⟨_, .inl ⟨Sprite.one_le_coverage_iff.2 ⟨rc, hrc, rfl⟩, hlit⟩⟩

/-- What is drawn a second time collides where the first time met a pixel that was off. -/
theorem collision_draw_draw_iff (h : sprite.length ≤ height) :
    ((s.draw x y sprite).screen.draw x y sprite).collision = true ↔
      ∃ rc ∈ setBits sprite, s.get (.wrap (x + rc.2) (y + rc.1)) = false := by
  rw [collision_draw_iff h]
  refine exists_congr fun rc => and_congr_right fun hrc => ?_
  rw [get_draw_of_mem h hrc, Bool.not_eq_true']

/-- **Drawings commute and cancel.**  Whatever is on the screen, drawing some sprites leaves the
same screen in any order; two equal drawings among them, wherever they stand, can be left out, and a
sprite that is drawn twice at a place leaves the screen as it was. If the sprite is not higher than
the screen, the first of the two collides exactly if a set bit falls on a pixel that is on, and the
second one exactly if a set bit falls on a pixel that was off before the first: one of them
collides, unless the sprite has no set bit. -/
theorem overlay_commutes_cancels (s : Screen) :
    (∀ draws draws' : List Draw, draws.Perm draws' → s.overlay draws = s.overlay draws') ∧
    (∀ (before between behind : List Draw) (d : Draw),
      s.overlay (before ++ d :: between ++ d :: behind) =
        s.overlay (before ++ between ++ behind)) ∧
    (∀ x y sprite, ((s.draw x y sprite).screen.draw x y sprite).screen = s) ∧
    ∀ x y sprite, sprite.length ≤ 32 →
      let first := s.draw x y sprite
      let second := first.screen.draw x y sprite
      (first.collision = true ↔
        ∃ rc ∈ setBits sprite, s.get (.wrap (x + rc.2) (y + rc.1)) = true) ∧
      (second.collision = true ↔
        ∃ rc ∈ setBits sprite, s.get (.wrap (x + rc.2) (y + rc.1)) = false) ∧
      (first.collision = true ∨ second.collision = true ↔ ∃ rc, rc ∈ setBits sprite) := by
  refine ⟨fun _ _ => s.overlay_perm, s.overlay_cancel, fun x y sprite => s.draw_draw x y,
    fun x y sprite h => ⟨collision_draw_iff h, collision_draw_draw_iff h, ?_⟩⟩
  rw [collision_draw_iff h, collision_draw_draw_iff h, ← exists_or]
  refine exists_congr fun rc => ?_
  -- the pixel under a set bit is on or off
  rw [← and_or_left, and_iff_left (Bool.eq_false_or_eq_true _)]

/-- With one pixel on, a sprite of two pixels that covers it collides when it is drawn and again
when it is drawn a second time. -/
theorem overlay_commutes_cancels_pair :
    let s := blank.flip (.wrap 63 31)
    let wide : Draw := ⟨62, 31, [0xC0]⟩
    let high : Draw := ⟨63, 31, [0x80, 0x81]⟩
    let first := s.draw 62 31 [0xC0]
    [wide, high].Perm [high, wide] ∧ s.overlay [wide, high] = s.overlay [high, wide] ∧
      [(0xC0 : Byte)].length ≤ 32 ∧
      first.collision = true ∧ (first.screen.draw 62 31 [0xC0]).collision = true := by
  intro s wide high first
  obtain ⟨hperm, -, -, hcollision⟩ := overlay_commutes_cancels s
  obtain ⟨hfirst, hsecond, -⟩ := hcollision 62 31 [0xC0] (by decide)
  have hswap : [wide, high].Perm [high, wide] := .swap ..
  have hlit : s.get (.wrap (62 + 1) (31 + 0)) = true := by
    rw [get_flip, if_pos rfl, get_blank, Bool.not_false]
  have hdark : s.get (.wrap (62 + 0) (31 + 0)) = false := by
    rw [get_flip, if_neg (by decide), get_blank]
  exact ⟨hswap, hperm _ _ hswap, by decide, hfirst.2 ⟨(0, 1), by decide, hlit⟩,
    hsecond.2 ⟨(0, 0), by decide, hdark⟩⟩

end Screen

end Chip8
