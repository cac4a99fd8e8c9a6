import Chip8.Word

/-!
# The screen

A grid of 64 by 32 pixels, each on or off.

* `Pixel` : a position; `Pixel.wrap` folds any position onto the grid.
* `Screen.get`, `Screen.flip` : one pixel.
* `Screen.lit`, `Screen.isBlank` : how many pixels are on, and whether none is.
* `Screen.get_flip` : flipping changes one pixel and no other.
-/

namespace Chip8

namespace Screen

/-- The pixels of a row. -/
def width : Nat := 64

/-- The rows. -/
def height : Nat := 32

/-- The pixels of the screen. -/
def resolution : Nat := width * height

end Screen

/-- A position on the screen. -/
structure Pixel where
  /-- The column, from the left. -/
  x : Fin Screen.width
  /-- The row, from the top. -/
  y : Fin Screen.height
  deriving DecidableEq, Repr

namespace Pixel

/-- The place of a pixel in reading order. -/
def index (p : Pixel) : Fin Screen.resolution :=
  ⟨Screen.width * p.y + p.x, by
    have := p.x.isLt
    have := p.y.isLt
    simp only [Screen.width, Screen.height, Screen.resolution] at *
    omega⟩

theorem index_inj {p q : Pixel} : p.index = q.index ↔ p = q := by
  refine ⟨fun h => ?_, fun h => h ▸ rfl⟩
  obtain ⟨⟨px, hpx⟩, ⟨py, hpy⟩⟩ := p
  obtain ⟨⟨qx, hqx⟩, ⟨qy, hqy⟩⟩ := q
  have hpx' : px < 64 := hpx
  have hqx' : qx < 64 := hqx
  have h' : 64 * py + px = 64 * qy + qx := congrArg Fin.val h
  simp only [mk.injEq, Fin.mk.injEq]
  omega

/-- The pixel at column `x` and row `y`, around the edges of the screen. -/
def wrap (x y : Nat) : Pixel :=
  ⟨⟨x % Screen.width, Nat.mod_lt _ (by decide)⟩, ⟨y % Screen.height, Nat.mod_lt _ (by decide)⟩⟩

/-- The pixel at column `x` and row `y`, if there is one. -/
def ofCoordinates? (x y : Nat) : Option Pixel :=
  if h : x < Screen.width ∧ y < Screen.height then some ⟨⟨x, h.1⟩, ⟨y, h.2⟩⟩ else none

end Pixel

/-- The pixels of a machine. -/
structure Screen where
  /-- The pixels in reading order; a pixel that is on is true. -/
  cells : Vector Bool Screen.resolution
  deriving DecidableEq

namespace Screen

/-- The screen with every pixel off. -/
def blank : Screen := ⟨.replicate resolution false⟩

variable (s : Screen)

/-- The pixel `p` is on. -/
def get (p : Pixel) : Bool := s.cells[p.index]

/-- Turns one pixel over. -/
def flip (p : Pixel) : Screen := ⟨s.cells.set p.index (!s.cells[p.index])⟩

/-- The number of pixels that are on. -/
def lit : Nat := s.cells.toList.count true

/-- No pixel is on. -/
def isBlank : Bool := s.cells.all (!·)

/-- The pixels of row `y`, from the left. -/
def row (y : Fin height) : List Bool := .ofFn fun x => s.get ⟨x, y⟩

/-- The rows of the screen, from the top. -/
def rows : List (List Bool) := .ofFn s.row

variable {s}

theorem get_flip (p q : Pixel) : (s.flip p).get q = if p = q then !s.get p else s.get q := by
  simp only [get, flip, Fin.getElem_fin, Vector.getElem_set, ← Pixel.index_inj, Fin.ext_iff]

@[simp] theorem get_blank (p : Pixel) : blank.get p = false := by
  simp [get, blank]

theorem ext_get {t : Screen} (h : ∀ p, s.get p = t.get p) : s = t := by
  obtain ⟨c⟩ := s
  obtain ⟨d⟩ := t
  congr 1
  apply Vector.ext
  intro i hi
  have hy : i / width < height := by
    simp only [resolution, width, height] at *
    omega
  have hp := h ⟨⟨i % width, Nat.mod_lt _ (by decide)⟩, ⟨i / width, hy⟩⟩
  simpa [get, Pixel.index, Nat.div_add_mod] using hp

end Screen

end Chip8
