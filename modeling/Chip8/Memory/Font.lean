import Chip8.Memory.Layout

/-!
# The font

A glyph for each hexadecimal digit, four pixels wide and five rows high, kept at the start of
memory. Each row is a byte, whose high bits are the pixels from the left.

* `Font.glyphs` : the rows of the sixteen glyphs.
* `Font.bytes` : the glyphs one behind the other, as they lie in memory.
* `Font.addressOf` : where a glyph starts.
-/

namespace Chip8

namespace Font

/-- The address of the first glyph. -/
def location : Nat := 0x000

/-- The rows of a glyph. -/
def glyphSize : Nat := 5

/-- The rows of the glyphs for `0` to `F`. -/
def glyphs : List (List Byte) :=
  [[0xF0, 0x90, 0x90, 0x90, 0xF0], [0x20, 0x60, 0x20, 0x20, 0x70],
   [0xF0, 0x10, 0xF0, 0x80, 0xF0], [0xF0, 0x10, 0xF0, 0x10, 0xF0],
   [0x90, 0x90, 0xF0, 0x10, 0x10], [0xF0, 0x80, 0xF0, 0x10, 0xF0],
   [0xF0, 0x80, 0xF0, 0x90, 0xF0], [0xF0, 0x10, 0x20, 0x40, 0x40],
   [0xF0, 0x90, 0xF0, 0x90, 0xF0], [0xF0, 0x90, 0xF0, 0x10, 0xF0],
   [0xF0, 0x90, 0xF0, 0x90, 0x90], [0xE0, 0x90, 0xE0, 0x90, 0xE0],
   [0xF0, 0x80, 0x80, 0x80, 0xF0], [0xE0, 0x90, 0x90, 0x90, 0xE0],
   [0xF0, 0x80, 0xF0, 0x80, 0xF0], [0xF0, 0x80, 0xF0, 0x80, 0x80]]

/-- The font as it lies in memory. -/
def bytes : List Byte := glyphs.flatten

/-- The address of the glyph for `digit`. -/
def addressOf (digit : Nat) : Nat := location + digit * glyphSize

end Font

end Chip8
