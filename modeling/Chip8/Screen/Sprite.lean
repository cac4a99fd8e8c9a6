import Chip8.Screen.Basic

/-!
# Sprites

A sprite is a list of rows of eight pixels, a byte each, with the high bit on the left. It is drawn
by turning over the pixel under each of its set bits, one after the other and around the edges; the
drawing collides when it turns a pixel off.

* `Sprite.and_shifted_mask` : the bits of a row, by their masks.
* `Sprite.hits` : the pixels under the set bits, in drawing order.
* `Drawing.hit` : one pixel turned over.
* `Screen.draw` : a whole sprite.
-/

namespace Chip8

namespace Sprite

/-- The pixels of a row. -/
def width : Nat := 8

/-- Of the bits of a row, the mask shifted by `c` leaves bit `c` from the left. -/
theorem and_shifted_mask (bits : Byte) {c : Nat} (h : c < width) :
    bits &&& ((0x80 : Byte) >>> c) = 0 ↔ bits.getMsbD c = false := by
  have h : c < 8 := h
  have hm : ∀ c < 8, (0x80 : Byte) >>> c = BitVec.twoPow 8 (7 - c) := by decide
  have hz : ∀ i < 8, ¬ BitVec.twoPow 8 i = 0 := by decide
  rw [hm c h, BitVec.and_twoPow, BitVec.getMsbD]
  cases hb : bits.getLsbD (7 - c) with
  | false => simp
  | true => simpa [h, hb] using hz (7 - c) (by omega)

/-- The pixels under the set bits of a row, with the row's left end at column `x` of row `y`. -/
def rowHits (x y : Nat) (row : Byte) : List Pixel :=
  (List.range width).filterMap fun c =>
    if row.getMsbD c then some (Pixel.wrap (x + c) y) else none

/-- The pixels under the set bits of a sprite, with its upper left corner at column `x` and
row `y`. -/
def hits (x y : Nat) : List Byte → List Pixel
  | [] => []
  | row :: rows => rowHits x y row ++ hits x (y + 1) rows

end Sprite

/-- A screen while something is drawn. -/
structure Drawing where
  /-- The screen so far. -/
  screen : Screen
  /-- A pixel was turned off. -/
  collision : Bool := false
  deriving DecidableEq

/-- Turns one pixel over and notes whether it was on. -/
def Drawing.hit (d : Drawing) (p : Pixel) : Drawing where
  collision := d.collision || d.screen.get p
  screen := d.screen.flip p

namespace Screen

/-- Draws a sprite with its upper left corner at column `x` and row `y`. -/
def draw (s : Screen) (x y : Nat) (sprite : List Byte) : Drawing :=
  (Sprite.hits x y sprite).foldl Drawing.hit { screen := s }

end Screen

end Chip8
